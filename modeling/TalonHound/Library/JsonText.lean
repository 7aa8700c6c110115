import Mathlib.Data.List.Sort
import Mathlib.Data.String.Basic
import TalonHound.Library.Json

/-!
# The canonical text of a JSON document

A document is written with its keys in order and without space. Numbers stand for their texts.
Documents with one text are the same document, up to the order of keys.
-/

namespace Json

open List

def isNumberChar (c : Char) : Bool :=
  c.isDigit || c = '-' || c = '+' || c = '.' || c = 'e' || c = 'E'

def hexDigit (n : ℕ) : Char := "0123456789abcdef".toList.getD n '0'

def hexVal (c : Char) : ℕ := "0123456789abcdef".toList.findIdx (· = c)

/-- A character inside of a string, as `JSON.stringify` writes it. -/
def escapeChar (c : Char) : List Char :=
  if c = '"' then ['\\', '"']
  else if c = '\\' then ['\\', '\\']
  else if c = '\x08' then ['\\', 'b']
  else if c = '\x0c' then ['\\', 'f']
  else if c = '\n' then ['\\', 'n']
  else if c = '\r' then ['\\', 'r']
  else if c = '\t' then ['\\', 't']
  else if c.toNat < 32 then ['\\', 'u', '0', '0', hexDigit (c.toNat / 16), hexDigit (c.toNat % 16)]
  else [c]

/-- The first character of a text inside of a string. -/
def readChar : List Char → Option (Char × List Char)
  | '\\' :: 'u' :: _ :: _ :: a :: b :: rest => some (Char.ofNat (16 * hexVal a + hexVal b), rest)
  | '\\' :: 'b' :: rest => some ('\x08', rest)
  | '\\' :: 'f' :: rest => some ('\x0c', rest)
  | '\\' :: 'n' :: rest => some ('\n', rest)
  | '\\' :: 'r' :: rest => some ('\r', rest)
  | '\\' :: 't' :: rest => some ('\t', rest)
  | '\\' :: c :: rest => some (c, rest)
  | '"' :: _ => none
  | c :: rest => some (c, rest)
  | [] => none

/-- A string with its quotes, followed by `after`. -/
def quoteBefore (cs after : List Char) : List Char :=
  '"' :: (cs.flatMap escapeChar ++ '"' :: after)

variable {c : Char} {cs ds x y : List Char}

theorem hexVal_hexDigit : ∀ n < 16, hexVal (hexDigit n) = n := by decide

theorem readChar_escapeChar : readChar (escapeChar c ++ x) = some (c, x) := by
  unfold escapeChar
  split
  · next h => rw [h]; rfl
  split
  · next h => rw [h]; rfl
  split
  · next h => rw [h]; rfl
  split
  · next h => rw [h]; rfl
  split
  · next h => rw [h]; rfl
  split
  · next h => rw [h]; rfl
  split
  · next h => rw [h]; rfl
  split
  · next h =>
    have hhigh := hexVal_hexDigit (c.toNat / 16) (by omega)
    have hlow := hexVal_hexDigit (c.toNat % 16) (by omega)
    have hcode : 16 * (c.toNat / 16) + c.toNat % 16 = c.toNat := by omega
    simp only [cons_append, nil_append, readChar, hhigh, hlow, hcode, Char.ofNat_toNat]
  · next hquote hslash _ _ _ _ _ _ =>
    rw [singleton_append, readChar.eq_def]
    split <;> simp_all

/-- A string is read back up to its closing quote. -/
theorem quoteBefore_inj (h : quoteBefore cs x = quoteBefore ds y) : cs = ds ∧ x = y := by
  have hbody := (List.cons.inj h).2
  clear h
  induction cs generalizing ds with
  | nil =>
    cases ds with
    | nil => exact ⟨rfl, (List.cons.inj hbody).2⟩
    | cons d ds =>
      have hread := congrArg readChar hbody
      rw [flatMap_cons, append_assoc, readChar_escapeChar] at hread
      cases hread
  | cons c cs ih =>
    cases ds with
    | nil =>
      have hread := congrArg readChar hbody
      rw [flatMap_cons, append_assoc, readChar_escapeChar] at hread
      cases hread
    | cons d ds =>
      have hread := congrArg readChar hbody
      rw [flatMap_cons, flatMap_cons, append_assoc, append_assoc,
        readChar_escapeChar, readChar_escapeChar] at hread
      obtain ⟨rfl, hrest⟩ := Prod.mk.inj (Option.some.inj hread)
      obtain ⟨rfl, rfl⟩ := ih hrest
      exact ⟨rfl, rfl⟩

/-- The document's numbers are texts of numbers, and no object has a key twice. -/
inductive WellFormed : Json → Prop
  | null : WellFormed null
  | bool (b : Bool) : WellFormed (bool b)
  | num (t : String) (hne : t.toList ≠ []) (hchars : ∀ c ∈ t.toList, isNumberChar c) :
      WellFormed (num t)
  | str (s : String) : WellFormed (str s)
  | arr (items : List Json) (h : ∀ v ∈ items, WellFormed v) : WellFormed (arr items)
  | obj (entries : List (String × Json)) (hkeys : (entries.map Prod.fst).Nodup)
      (h : ∀ e ∈ entries, WellFormed e.2) : WellFormed (obj entries)

mutual

/-- The text of a document, followed by `after`. -/
def renderBefore (after : List Char) : Json → List Char
  | null => "null".toList ++ after
  | bool true => "true".toList ++ after
  | bool false => "false".toList ++ after
  | num t => t.toList ++ after
  | str s => quoteBefore s.toList after
  | arr [] => "[]".toList ++ after
  | arr (v :: items) => '[' :: renderBefore (renderItems after items) v
  | obj [] => '\x7b' :: '\x7d' :: after
  | obj ((key, v) :: entries) =>
    '\x7b' :: quoteBefore key.toList (':' :: renderBefore (renderEntries after entries) v)
termination_by structural v => v

/-- The elements of an array after its first one. -/
def renderItems (after : List Char) : List Json → List Char
  | [] => ']' :: after
  | v :: items => ',' :: renderBefore (renderItems after items) v
termination_by structural items => items

/-- The entries of an object after its first one. -/
def renderEntries (after : List Char) : List (String × Json) → List Char
  | [] => '\x7d' :: after
  | (key, v) :: entries =>
    ',' :: quoteBefore key.toList (':' :: renderBefore (renderEntries after entries) v)
termination_by structural entries => entries

end

/-- `JSON.stringify`. -/
def render (v : Json) : String := String.ofList (renderBefore [] v)

variable {v w : Json} {items items' : List Json} {entries entries' : List (String × Json)}

/-- A number that stands before the text ends there. -/
def Delimited (x : List Char) : Prop := ∀ c ∈ x.head?, isNumberChar c = false

theorem delimited_renderItems : Delimited (renderItems x items) := by
  cases items <;> simp [Delimited, renderItems, isNumberChar]

theorem delimited_renderEntries : Delimited (renderEntries x entries) := by
  cases entries <;> simp [Delimited, renderEntries, isNumberChar]

def kind : Json → ℕ
  | null => 0
  | bool true => 1
  | bool false => 2
  | num _ => 3
  | str _ => 4
  | arr _ => 5
  | obj _ => 6

/-- The kind of document that begins with a character. -/
def kindOf (c : Char) : ℕ :=
  if isNumberChar c then 3
  else if c = 'n' then 0
  else if c = 't' then 1
  else if c = 'f' then 2
  else if c = '"' then 4
  else if c = '[' then 5
  else if c = '\x7b' then 6
  else 7

theorem kindOf_head (hv : WellFormed v) :
    ∃ c rest, renderBefore x v = c :: rest ∧ kindOf c = v.kind := by
  cases hv with
  | null => exact ⟨_, _, rfl, by decide⟩
  | bool b => cases b <;> exact ⟨_, _, rfl, by decide⟩
  | num t hne hchars =>
    obtain ⟨c, cs, hcs⟩ := exists_cons_of_ne_nil hne
    refine ⟨c, cs ++ x, by rw [renderBefore, hcs, cons_append], ?_⟩
    have hc := hchars c (by rw [hcs]; exact mem_cons_self)
    simp [kindOf, hc, kind]
  | str s => exact ⟨_, _, rfl, rfl⟩
  | arr items h => cases items <;> exact ⟨_, _, rfl, rfl⟩
  | obj entries hkeys h =>
    cases entries with
    | nil => exact ⟨_, _, rfl, by decide⟩
    | cons e entries => exact ⟨_, _, rfl, rfl⟩

theorem kind_lt (v : Json) : v.kind < 7 := by
  unfold kind
  split <;> omega

/-- Documents with one text are of one kind. -/
theorem kind_eq (hv : WellFormed v) (hw : WellFormed w)
    (h : renderBefore x v = renderBefore y w) : v.kind = w.kind := by
  obtain ⟨c, rest, hrender, hkind⟩ := kindOf_head (x := x) hv
  obtain ⟨d, rest', hrender', hkind'⟩ := kindOf_head (x := y) hw
  rw [hrender, hrender'] at h
  rw [← hkind, ← hkind', (List.cons.inj h).1]

/-- The text of a document does not begin with a closing bracket. -/
theorem renderBefore_ne (hv : WellFormed v) (hc : kindOf c = 7) : renderBefore x v ≠ c :: y := by
  intro h
  obtain ⟨d, rest, hrender, hkind⟩ := kindOf_head (x := x) hv
  rw [hrender] at h
  obtain ⟨rfl, -⟩ := List.cons.inj h
  have hlt := kind_lt v
  omega

/-- Texts of numbers end where they are delimited. -/
theorem number_append_inj (hcs : ∀ c ∈ cs, isNumberChar c) (hds : ∀ c ∈ ds, isNumberChar c)
    (hx : Delimited x) (hy : Delimited y) (h : cs ++ x = ds ++ y) : cs = ds ∧ x = y := by
  induction cs generalizing ds with
  | nil =>
    cases ds with
    | nil => exact ⟨rfl, h⟩
    | cons d ds =>
      rw [nil_append] at h
      have hd := hx d (by rw [h]; rfl)
      simp [hds d mem_cons_self] at hd
  | cons c cs ih =>
    cases ds with
    | nil =>
      rw [nil_append] at h
      have hc := hy c (by rw [← h]; rfl)
      simp [hcs c mem_cons_self] at hc
    | cons d ds =>
      obtain ⟨rfl, hrest⟩ := List.cons.inj h
      obtain ⟨rfl, rfl⟩ := ih (fun c hc => hcs c (.tail _ hc))
        (fun c hc => hds c (.tail _ hc)) hrest
      exact ⟨rfl, rfl⟩

/-- The text of the document tells it apart from all others. -/
def Readable (v : Json) : Prop :=
  ∀ ⦃w x y⦄, WellFormed w → Delimited x → Delimited y →
    renderBefore x v = renderBefore y w → v = w ∧ x = y

theorem renderItems_inj (hitems : ∀ v ∈ items, WellFormed v ∧ Readable v)
    (hitems' : ∀ v ∈ items', WellFormed v) (h : renderItems x items = renderItems y items') :
    items = items' ∧ x = y := by
  induction items generalizing items' with
  | nil =>
    cases items' with
    | nil => exact ⟨rfl, (List.cons.inj h).2⟩
    | cons v' items' => simp [renderItems] at h
  | cons v items ih =>
    cases items' with
    | nil => simp [renderItems] at h
    | cons v' items' =>
      obtain ⟨rfl, hrest⟩ := (hitems v mem_cons_self).2 (hitems' v' mem_cons_self)
        delimited_renderItems delimited_renderItems (List.cons.inj h).2
      obtain ⟨rfl, rfl⟩ := ih (fun w hw => hitems w (.tail _ hw))
        (fun w hw => hitems' w (.tail _ hw)) hrest
      exact ⟨rfl, rfl⟩

/-- One entry of an object. -/
theorem entry_inj {key key' : String} (hv : Readable v) (hw : WellFormed w)
    (h : quoteBefore key.toList (':' :: renderBefore (renderEntries x entries) v) =
      quoteBefore key'.toList (':' :: renderBefore (renderEntries y entries') w)) :
    key = key' ∧ v = w ∧ renderEntries x entries = renderEntries y entries' := by
  obtain ⟨hkey, hvalue⟩ := quoteBefore_inj h
  obtain ⟨rfl, hrest⟩ := hv hw delimited_renderEntries delimited_renderEntries (List.cons.inj hvalue).2
  exact ⟨String.ext hkey, rfl, hrest⟩

theorem renderEntries_inj (hentries : ∀ e ∈ entries, Readable e.2)
    (hentries' : ∀ e ∈ entries', WellFormed e.2)
    (h : renderEntries x entries = renderEntries y entries') : entries = entries' ∧ x = y := by
  induction entries generalizing entries' with
  | nil =>
    cases entries' with
    | nil => exact ⟨rfl, (List.cons.inj h).2⟩
    | cons e' entries' => simp [renderEntries] at h
  | cons e entries ih =>
    cases entries' with
    | nil => simp [renderEntries] at h
    | cons e' entries' =>
      obtain ⟨hkey, hvalue, hrest⟩ := entry_inj (hentries e mem_cons_self)
        (hentries' e' mem_cons_self) (List.cons.inj h).2
      obtain ⟨rfl, rfl⟩ := ih (fun f hf => hentries f (.tail _ hf))
        (fun f hf => hentries' f (.tail _ hf)) hrest
      exact ⟨by rw [Prod.ext hkey hvalue], rfl⟩

theorem readable (hv : WellFormed v) : Readable v := by
  induction hv with
  | null =>
    intro w x y hw _ _ h
    have hkind := kind_eq .null hw h
    cases hw with
    | null => exact ⟨rfl, append_cancel_left h⟩
    | bool b => cases b <;> cases hkind
    | _ => cases hkind
  | bool b =>
    intro w x y hw _ _ h
    have hkind := kind_eq (.bool b) hw h
    cases hw with
    | bool b' =>
      cases b <;> cases b'
      · exact ⟨rfl, append_cancel_left h⟩
      · cases hkind
      · cases hkind
      · exact ⟨rfl, append_cancel_left h⟩
    | _ => cases b <;> cases hkind
  | num t hne hchars =>
    intro w x y hw hx hy h
    have hkind := kind_eq (.num t hne hchars) hw h
    cases hw with
    | num t' hne' hchars' =>
      obtain ⟨htext, hrest⟩ := number_append_inj hchars hchars' hx hy h
      exact ⟨by rw [String.ext htext], hrest⟩
    | bool b => cases b <;> cases hkind
    | _ => cases hkind
  | str s =>
    intro w x y hw _ _ h
    have hkind := kind_eq (.str s) hw h
    cases hw with
    | str s' =>
      obtain ⟨htext, hrest⟩ := quoteBefore_inj h
      exact ⟨by rw [String.ext htext], hrest⟩
    | bool b => cases b <;> cases hkind
    | _ => cases hkind
  | arr items hitems ih =>
    intro w x y hw _ _ h
    have hkind := kind_eq (.arr items hitems) hw h
    cases hw with
    | arr items' hitems' =>
      have hclose : kindOf ']' = 7 := by decide
      cases items with
      | nil =>
        cases items' with
        | nil => exact ⟨rfl, append_cancel_left h⟩
        | cons v' items' =>
          exact absurd (List.cons.inj h).2.symm (renderBefore_ne (hitems' v' mem_cons_self) hclose)
      | cons v items =>
        cases items' with
        | nil =>
          exact absurd (List.cons.inj h).2 (renderBefore_ne (hitems v mem_cons_self) hclose)
        | cons v' items' =>
          obtain ⟨rfl, hrest⟩ := ih v mem_cons_self (hitems' v' mem_cons_self)
            delimited_renderItems delimited_renderItems (List.cons.inj h).2
          obtain ⟨rfl, rfl⟩ := renderItems_inj
            (fun u hu => ⟨hitems u (.tail _ hu), ih u (.tail _ hu)⟩)
            (fun u hu => hitems' u (.tail _ hu)) hrest
          exact ⟨rfl, rfl⟩
    | bool b => cases b <;> cases hkind
    | _ => cases hkind
  | obj entries hkeys hentries ih =>
    intro w x y hw _ _ h
    have hkind := kind_eq (.obj entries hkeys hentries) hw h
    cases hw with
    | obj entries' hkeys' hentries' =>
      cases entries with
      | nil =>
        cases entries' with
        | nil => exact ⟨rfl, (List.cons.inj (List.cons.inj h).2).2⟩
        | cons e' entries' => simp [renderBefore, quoteBefore] at h
      | cons e entries =>
        cases entries' with
        | nil => simp [renderBefore, quoteBefore] at h
        | cons e' entries' =>
          obtain ⟨hkey, hvalue, hrest⟩ := entry_inj (ih e mem_cons_self)
            (hentries' e' mem_cons_self) (List.cons.inj h).2
          obtain ⟨rfl, rfl⟩ := renderEntries_inj (fun f hf => ih f (.tail _ hf))
            (fun f hf => hentries' f (.tail _ hf)) hrest
          exact ⟨by rw [Prod.ext hkey hvalue], rfl⟩
    | bool b => cases b <;> cases hkind
    | _ => cases hkind

/-- Documents with one text are one document. -/
theorem render_inj (hv : WellFormed v) (hw : WellFormed w) (h : v.render = w.render) : v = w := by
  have hdelimited : Delimited [] := by simp [Delimited]
  exact (readable hv hw hdelimited hdelimited (String.ofList_injective h)).1

/-- What stands after a document does not change its text. -/
theorem renderBefore_eq (hv : WellFormed v) (x : List Char) :
    renderBefore x v = renderBefore [] v ++ x := by
  induction hv generalizing x with
  | null => simp [renderBefore]
  | bool b => cases b <;> simp [renderBefore]
  | num t hne hchars => simp [renderBefore]
  | str s => simp [renderBefore, quoteBefore]
  | arr items hitems ih =>
    cases items with
    | nil => simp [renderBefore]
    | cons v items =>
      have hrest : ∀ y, renderItems y items = renderItems [] items ++ y := by
        intro y
        induction items with
        | nil => simp [renderItems]
        | cons w items ihitems =>
          have htail := ihitems
            (fun u hu => hitems u (mem_cons.mpr ((mem_cons.mp hu).imp_right (.tail _))))
            (fun u hu => ih u (mem_cons.mpr ((mem_cons.mp hu).imp_right (.tail _))))
          have hw := ih w (by simp)
          rw [renderItems, renderItems, hw, hw (renderItems [] items), htail]
          simp
      have hv := ih v mem_cons_self
      rw [renderBefore, renderBefore, hv, hv (renderItems [] items), hrest]
      simp
  | obj entries hkeys hentries ih =>
    cases entries with
    | nil => simp [renderBefore]
    | cons e entries =>
      have hrest : ∀ y, renderEntries y entries = renderEntries [] entries ++ y := by
        intro y
        clear hkeys hentries
        induction entries with
        | nil => simp [renderEntries]
        | cons w entries ihentries =>
          have htail := ihentries
            fun u hu => ih u (mem_cons.mpr ((mem_cons.mp hu).imp_right (.tail _)))
          have hw := ih w (by simp)
          rw [renderEntries, renderEntries, hw, hw (renderEntries [] entries), htail]
          simp [quoteBefore]
      have hv := ih e mem_cons_self
      rw [renderBefore, renderBefore, hv, hv (renderEntries [] entries), hrest]
      simp [quoteBefore]

/-- The elements of an array stand with commas between them. -/
theorem renderBefore_arr (h : ∀ v ∈ items, WellFormed v) :
    renderBefore x (arr items) =
      '[' :: ((",".intercalate (items.map render)).toList ++ ']' :: x) := by
  cases items with
  | nil => simp [renderBefore]
  | cons v items =>
    rw [renderBefore]
    congr 1
    induction items generalizing v with
    | nil =>
      rw [renderBefore_eq (h v (by simp))]
      simp [render, renderItems]
    | cons w items ih =>
      have htail := ih w fun u hu => h u (.tail _ hu)
      rw [renderBefore_eq (h v (by simp)), renderItems, htail]
      simp [render]

theorem render_ne (hv : WellFormed v) : v.render ≠ "" := by
  obtain ⟨c, rest, hrender, -⟩ := kindOf_head (x := []) hv
  simp [render, hrender]

end Json
