import Mathlib.Data.List.Chain

/-!
# Walking a changing list by offsets

A reader takes a list page by page, each page from the offset after the one before, while the list
may change between two reads. What is in every list that was read is in a page, unless a change
moves it from behind the offset to the front of it.
-/

variable {α : Type*}

/-- One read: the list as it is then, the offset and the length of the page. -/
structure OffsetRead (α : Type*) where
  items : List α
  (offset limit : ℕ)

namespace OffsetRead

variable {r r' : OffsetRead α} {reads : List (OffsetRead α)} {a : α}

/-- The page. -/
def page (r : OffsetRead α) : List α := (r.items.drop r.offset).take r.limit

/-- The offset of the next read. -/
def next (r : OffsetRead α) : ℕ := r.offset + r.page.length

/-- What the following reads are still to bring. -/
def ahead (r : OffsetRead α) : List α := r.items.drop r.next

/-- A read that follows another starts where it ended. -/
def Follows (r r' : OffsetRead α) : Prop := r'.offset = r.next

/-- The change between two reads does not move an item that is still ahead before the offset. -/
def KeepsAhead (a : α) (r r' : OffsetRead α) : Prop :=
  a ∈ r.ahead → a ∈ r'.items.drop r'.offset

instance [DecidableEq α] (a : α) (r r' : OffsetRead α) : Decidable (KeepsAhead a r r') :=
  inferInstanceAs (Decidable (_ → _))

/-- What a page leaves of the list comes after it. -/
theorem drop_offset_eq : r.items.drop r.offset = r.page ++ r.ahead := by
  have hahead : r.ahead = (r.items.drop r.offset).drop r.page.length := by
    unfold ahead next
    rw [List.drop_drop]
  rw [hahead]
  unfold page
  rw [List.length_take]
  rcases Nat.le_total r.limit (r.items.drop r.offset).length with hle | hle
  · rw [Nat.min_eq_left hle, List.take_append_drop]
  · rw [Nat.min_eq_right hle, List.take_of_length_le hle, List.drop_length, List.append_nil]

/-- An item from the offset on is in the page or ahead. -/
theorem mem_page_or_ahead (h : a ∈ r.items.drop r.offset) : a ∈ r.page ∨ a ∈ r.ahead := by
  rw [drop_offset_eq] at h
  exact List.mem_append.mp h

/-- Along reads that follow each other, an item from the first offset on comes in a page or is
ahead of the last read. -/
theorem mem_page_or_ahead_last (hkeeps : (r :: reads).IsChain (KeepsAhead a))
    (h : a ∈ r.items.drop r.offset) :
    (∃ x ∈ r :: reads, a ∈ x.page) ∨ a ∈ ((r :: reads).getLast (List.cons_ne_nil _ _)).ahead := by
  induction reads generalizing r with
  | nil =>
    rcases mem_page_or_ahead h with hpage | hahead
    · exact .inl ⟨r, List.mem_cons_self, hpage⟩
    · exact .inr hahead
  | cons r' reads ih =>
    obtain ⟨hkeep, hrest⟩ := List.isChain_cons_cons.mp hkeeps
    rcases mem_page_or_ahead h with hpage | hahead
    · exact .inl ⟨r, List.mem_cons_self, hpage⟩
    · rcases ih hrest (hkeep hahead) with ⟨x, hx, hpage⟩ | hlast
      · exact .inl ⟨x, List.mem_cons_of_mem _ hx, hpage⟩
      · refine .inr ?_
        rw [List.getLast_cons (List.cons_ne_nil _ _)]
        exact hlast

/-- A complete walk from the start brings every item of its first list that no change moves before
the offset. -/
theorem mem_page_of_complete (hfirst : r.offset = 0)
    (hlast : ((r :: reads).getLast (List.cons_ne_nil _ _)).ahead = [])
    (hkeeps : (r :: reads).IsChain (KeepsAhead a)) (h : a ∈ r.items) :
    ∃ x ∈ r :: reads, a ∈ x.page := by
  have hstart : a ∈ r.items.drop r.offset := by
    rw [hfirst]
    exact h
  rcases mem_page_or_ahead_last hkeeps hstart with hpage | hahead
  · exact hpage
  · rw [hlast] at hahead
    cases hahead

/-- Items that are only added move nothing that is ahead before the offset. -/
theorem keepsAhead_of_additions (hfollows : reads.IsChain Follows)
    (hadds : reads.IsChain fun r r' => r.items.Sublist r'.items) :
    reads.IsChain (KeepsAhead a) := by
  induction reads with
  | nil => exact .nil
  | cons r reads ih =>
    cases reads with
    | nil => exact .singleton r
    | cons r' reads =>
      rw [List.isChain_cons_cons] at hfollows hadds ⊢
      refine ⟨fun hahead => ?_, ih hfollows.2 hadds.2⟩
      rw [hfollows.1]
      exact (hadds.1.drop r.next).subset hahead

end OffsetRead
