import Mathlib.Tactic.SplitIfs
import SlotCalc.Text.Quoted

namespace SlotCalc.Text

/-- There are no blanks but spaces in the text, and so no ends of lines of any kind. -/
def OnOneLine (text : List Char) : Prop := ∀ c ∈ text, isBlank c = true → c = ' '

-- By the characters of the text. Another instance would go through all characters that there are.
instance (text : List Char) : Decidable (OnOneLine text) :=
  List.decidableBAll (fun c => isBlank c = true → c = ' ') text

section
variable {c mark : Char} {text more : List Char}

theorem onOneLine_append : OnOneLine (text ++ more) ↔ OnOneLine text ∧ OnOneLine more :=
  List.forall_mem_append

theorem onOneLine_of_unbroken (h : ∀ c ∈ text, isBlank c = false) : OnOneLine text := by
  intro c hc hblank
  rw [h c hc] at hblank
  cases hblank

theorem OnOneLine.ne_lineEnd (h : OnOneLine text) : ∀ c ∈ text, c ≠ '\n' ∧ c ≠ '\r' := by
  intro c hc
  constructor
  · rintro rfl
    exact absurd (h _ hc isBlank_lineFeed) (by decide)
  · rintro rfl
    exact absurd (h _ hc (by decide)) (by decide)

/-- The space is the only blank that is printable. -/
theorem eq_space_of_isPrintable (h : isPrintable c = true) (hblank : isBlank c = true) :
    c = ' ' := by
  -- There are few enough blanks to go through them.
  have all : ∀ r ∈ blankRanges, ∀ k < r.2 + 1 - r.1,
      isPrintable (Char.ofNat (r.1 + k)) = true → Char.ofNat (r.1 + k) = ' ' := by
    decide +kernel
  obtain ⟨r, hr, hc⟩ := List.any_eq_true.1 hblank
  simp only [Bool.and_eq_true, decide_eq_true_eq] at hc
  have hsplit : r.1 + (c.toNat - r.1) = c.toNat := by omega
  have hplace := all r hr (c.toNat - r.1) (by omega)
  rw [hsplit, Char.ofNat_toNat] at hplace
  exact hplace h

theorem isBlank_digitChar : ∀ d < 16, isBlank d.digitChar = false := by
  decide

theorem toDigits_unbroken (n : Nat) : ∀ c ∈ Nat.toDigits 16 n, isBlank c = false := by
  induction n using Nat.strongRecOn with
  | ind n ih =>
    rw [Nat.toDigits_eq_if (by decide)]
    split
    · rename_i hn
      exact List.forall_mem_singleton.2 (isBlank_digitChar n hn)
    · rename_i hn
      have hlast := isBlank_digitChar (n % 16) (Nat.mod_lt _ (by decide))
      exact List.forall_mem_append.2
        ⟨ih (n / 16) (by omega), List.forall_mem_singleton.2 hlast⟩

theorem hexPadded_unbroken (width n : Nat) : ∀ c ∈ hexPadded width n, isBlank c = false := by
  have hzeros : ∀ c ∈ List.replicate (width - (Nat.toDigits 16 n).length) '0',
      isBlank c = false := by
    intro c hc
    rw [List.eq_of_mem_replicate hc]
    decide
  exact List.forall_mem_append.2 ⟨hzeros, toDigits_unbroken n⟩

theorem onOneLine_quotedChar (hmark : isBlank mark = false) (c : Char) :
    OnOneLine (quotedChar mark c) := by
  have hhex (x : Char) (hx : isBlank x = false) (width : Nat) :
      OnOneLine ('\\' :: x :: hexPadded width c.toNat) := by
    apply onOneLine_of_unbroken
    exact List.forall_mem_cons.2
      ⟨by decide, List.forall_mem_cons.2 ⟨hx, hexPadded_unbroken width c.toNat⟩⟩
  unfold quotedChar
  split_ifs with hescaped hfeed hreturn htab hprintable
  · have hc : isBlank c = false := by
      obtain rfl | rfl := hescaped
      · exact hmark
      · decide
    apply onOneLine_of_unbroken
    exact List.forall_mem_cons.2 ⟨by decide, List.forall_mem_singleton.2 hc⟩
  · decide
  · decide
  · decide
  · exact List.forall_mem_singleton.2 (eq_space_of_isPrintable hprintable)
  · exact hhex 'x' (by decide) 2
  · exact hhex 'u' (by decide) 4
  · exact hhex 'U' (by decide) 8

theorem isBlank_quoteMark (text : List Char) : isBlank (quoteMark text) = false := by
  unfold quoteMark
  split <;> decide

theorem onOneLine_quoted (text : String) : OnOneLine (quoted text).toList := by
  have hmark := isBlank_quoteMark text.toList
  have hend : OnOneLine [quoteMark text.toList] :=
    onOneLine_of_unbroken (List.forall_mem_singleton.2 hmark)
  have hbody : OnOneLine (text.toList.flatMap (quotedChar (quoteMark text.toList))) := by
    intro d hd
    obtain ⟨c, -, hd⟩ := List.mem_flatMap.1 hd
    exact onOneLine_quotedChar hmark c d hd
  rw [quoted, String.toList_ofList, quotedChars]
  exact onOneLine_append.2 ⟨onOneLine_append.2 ⟨hend, hbody⟩, hend⟩

end

end SlotCalc.Text
