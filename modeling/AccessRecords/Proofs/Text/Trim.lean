/-
Trimming: what was trimmed once has no blanks left at its ends, and a text without any blanks never
had them. The trimmed text is the only one that has blanks around it in the text and none at its ends.
-/
import AccessRecords.Text.Blank
import Mathlib.Data.List.DropRight

namespace AccessRecords.Text

theorem trimChars_eq (cs : List Char) : trimChars cs = (cs.dropWhile isBlank).rdropWhile isBlank := rfl

/-- A text that begins with no blank still does so without the blanks at its end. -/
theorem dropWhile_rdropWhile {cs : List Char} (h : cs.dropWhile isBlank = cs) :
    (cs.rdropWhile isBlank).dropWhile isBlank = cs.rdropWhile isBlank := by
  rw [List.dropWhile_eq_self_iff] at h ⊢
  intro hl
  -- what is left begins with the same character
  have hp : cs.rdropWhile isBlank <+: cs := List.rdropWhile_prefix isBlank cs
  rw [hp.getElem hl]
  exact h (hl.trans_le hp.length_le)

theorem trimChars_trimChars (cs : List Char) : trimChars (trimChars cs) = trimChars cs := by
  have h := dropWhile_rdropWhile (List.dropWhile_idempotent isBlank cs)
  rw [trimChars_eq, trimChars_eq, h, List.rdropWhile_idempotent]

@[simp] theorem trim_trim (s : String) : trim (trim s) = trim s := by
  unfold trim
  rw [String.toList_ofList, trimChars_trimChars]

/-- A text without blanks is its own trimmed text. -/
theorem trim_of_not_blank {s : String} (h : ∀ c ∈ s.toList, isBlank c = false) : trim s = s := by
  have hd : ∀ l : List Char, (∀ c ∈ l, isBlank c = false) → l.dropWhile isBlank = l := by
    intro l hl
    cases l with
    | nil => rfl
    | cons c l => rw [List.dropWhile_cons_of_neg (by rw [hl c List.mem_cons_self]; decide)]
  unfold trim trimChars
  rw [hd _ h, hd _ fun c hc => h c (List.mem_reverse.1 hc), List.reverse_reverse, String.ofList_toList]

/-! ## What trimming leaves -/

/-- `t` is `s` without blanks around it: what stands before and after is blank, and neither end of `t` is. -/
def Trims (s t : String) : Prop :=
  ∃ before after, s.toList = before ++ t.toList ++ after ∧ (∀ c ∈ before ++ after, isBlank c = true) ∧
    (∀ c ∈ t.toList.head?, isBlank c = false) ∧ ∀ c ∈ t.toList.getLast?, isBlank c = false

theorem dropWhile_blanks {before cs : List Char} (hb : ∀ c ∈ before, isBlank c = true)
    (hc : ∀ c ∈ cs.head?, isBlank c = false) : (before ++ cs).dropWhile isBlank = cs := by
  rw [List.dropWhile_append_of_pos hb]
  cases cs with
  | nil => rfl
  | cons c cs => exact List.dropWhile_cons_of_neg (Bool.eq_false_iff.1 (hc c rfl))

theorem trimChars_of_blanks {before cs after : List Char} (h : ∀ c ∈ before ++ after, isBlank c = true)
    (hfirst : ∀ c ∈ cs.head?, isBlank c = false) (hlast : ∀ c ∈ cs.getLast?, isBlank c = false) :
    trimChars (before ++ cs ++ after) = cs := by
  have hb : ∀ c ∈ before, isBlank c = true := fun c hc => h c (List.mem_append_left _ hc)
  have ha : ∀ c ∈ after, isBlank c = true := fun c hc => h c (List.mem_append_right _ hc)
  have hends : (cs ++ after).rdropWhile isBlank = cs := by
    have hr : (after.reverse ++ cs.reverse).dropWhile isBlank = cs.reverse :=
      dropWhile_blanks (fun c hc => ha c (List.mem_reverse.1 hc)) (by rwa [List.head?_reverse])
    rw [List.rdropWhile, List.reverse_append, hr, List.reverse_reverse]
  rw [trimChars_eq, List.append_assoc]
  cases cs with
  | nil =>
    -- nothing but blanks, which are dropped from the front
    rw [List.nil_append, List.dropWhile_eq_nil_iff.2 h]
    rfl
  | cons c cs =>
    have hfront : (before ++ (c :: cs ++ after)).dropWhile isBlank = c :: cs ++ after :=
      dropWhile_blanks hb hfirst
    rw [hfront, hends]

theorem trims_iff {s t : String} : Trims s t ↔ trim s = t := by
  constructor
  · rintro ⟨before, after, hs, hblank, hfirst, hlast⟩
    unfold trim
    rw [hs, trimChars_of_blanks hblank hfirst hlast, String.ofList_toList]
  · rintro rfl
    unfold Trims trim
    rw [String.toList_ofList, trimChars_eq]
    refine ⟨s.toList.takeWhile isBlank, (s.toList.dropWhile isBlank).rtakeWhile isBlank, ?_, ?_, ?_, ?_⟩
    · rw [List.append_assoc, List.rdropWhile_append_rtakeWhile, List.takeWhile_append_dropWhile]
    · intro c hc
      rcases List.mem_append.1 hc with hc | hc
      · exact List.mem_takeWhile_imp hc
      · exact List.mem_rtakeWhile_imp hc
    · intro c hc
      have hd := dropWhile_rdropWhile (List.dropWhile_idempotent isBlank s.toList)
      rw [← hd] at hc
      have := List.head?_dropWhile_not isBlank ((s.toList.dropWhile isBlank).rdropWhile isBlank)
      rw [Option.mem_def.1 hc] at this
      exact this
    · intro c hc
      have hne := List.ne_nil_of_mem (List.mem_of_getLast? hc)
      have hl := List.rdropWhile_last_not isBlank _ hne
      rw [List.getLast?_eq_some_getLast hne] at hc
      cases hc
      exact Bool.eq_false_iff.2 hl

/-- The text has no character that is not blank. -/
def Blank (s : String) : Prop := ∀ c ∈ s.toList, isBlank c = true

theorem trim_isEmpty_iff {s : String} : (trim s).isEmpty = true ↔ Blank s := by
  rw [String.isEmpty_iff]
  constructor
  · intro h
    obtain ⟨before, after, hs, hblank, -⟩ := trims_iff.2 h
    intro c hc
    rw [hs] at hc
    exact hblank c (by simpa using hc)
  · intro h
    exact trims_iff.1 ⟨s.toList, [], by simp, by simpa [Blank] using h, by simp, by simp⟩

end AccessRecords.Text
