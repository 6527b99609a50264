import SlotCalc.Options

namespace SlotCalc

theorem bind_eq_ok_iff {x : Except ε α} {f : α → Except ε β} {b : β} :
    x >>= f = .ok b ↔ ∃ a, x = .ok a ∧ f a = .ok b := by
  cases x <;> simp [bind, Except.bind]

theorem map_eq_ok_iff {x : Except ε α} {f : α → β} {b : β} :
    x.map f = .ok b ↔ ∃ a, x = .ok a ∧ f a = b := by
  cases x <;> simp [Except.map]

theorem Argument.ofTexts_append {texts more : List String} {arguments rest : List Argument}
    (h : ofTexts texts = .ok arguments) (hseparator : separator ∉ arguments)
    (hmore : ofTexts more = .ok rest) : ofTexts (texts ++ more) = .ok (arguments ++ rest) := by
  induction texts generalizing arguments with
  | nil =>
    cases h
    exact hmore
  | cons text texts ih =>
    rw [ofTexts] at h
    split at h
    · cases h
      simp at hseparator
    · rename_i htext
      cases hargument : ofText text.toList with
      | error e => simp [hargument] at h
      | ok argument =>
        simp only [hargument, map_eq_ok_iff] at h
        obtain ⟨later, hlater, rfl⟩ := h
        obtain ⟨-, hseparator⟩ := not_or.1 (mt List.mem_cons.2 hseparator)
        rw [List.cons_append, ofTexts, if_neg htext, hargument]
        simp only [ih hlater hseparator]
        rfl

namespace Options

/-- The arguments are options, each with its value if it takes one, that change the settings from
the first to the second. -/
inductive Accepts : Options → List Argument → Options → Prop
  | done (o : Options) : Accepts o [] o
  | short {o o₁ o' : Options} {option : Switch} {value : Option String} {more : List Argument}
    (h : o.raiseAll option true value = .ok o₁) (hmore : Accepts o₁ more o') :
    Accepts o (.short option value :: more) o'
  | long {o o₁ o' : Options} {option : Switch} {value : Option String} {more : List Argument}
    (hoption : option.takesValue = false) (h : o.raiseAll option false value = .ok o₁)
    (hmore : Accepts o₁ more o') : Accepts o (.long option value :: more) o'
  | assigned {o o₁ o' : Options} {option : Switch} {value : String} {more : List Argument}
    (hoption : option.takesValue = true) (h : o.assign option value = .ok o₁)
    (hmore : Accepts o₁ more o') : Accepts o (.long option (some value) :: more) o'
  | followed {o o₁ o' : Options} {option : Switch} {value : String} {more : List Argument}
    (hoption : option.takesValue = true) (h : o.assign option value = .ok o₁)
    (hmore : Accepts o₁ more o') : Accepts o (.long option none :: .plain value :: more) o'

section
variable {o o₁ o' : Options} {extras : List String} {arguments more : List Argument}

theorem Accepts.follow_eq (h : Accepts o arguments o') : follow o [] arguments = .ok o' := by
  induction h with
  | done o => rfl
  | short h hmore ih =>
    rw [follow, h]
    exact ih
  | long hoption h hmore ih =>
    rw [follow.eq_def]
    simp only [hoption, Bool.false_eq_true, if_false, h]
    exact ih
  | assigned hoption h hmore ih | followed hoption h hmore ih =>
    rw [follow, if_pos hoption, h]
    exact ih

theorem accepts_of_follow (h : follow o extras arguments = .ok o') :
    extras = [] ∧ Accepts o arguments o' := by
  induction o, extras, arguments using follow.induct with
  | case1 o =>
    obtain rfl : o = o' := Except.ok.inj h
    exact ⟨rfl, .done o⟩
  | case2 o extras hextras =>
    rw [follow, if_neg hextras] at h
    cases h
  -- What is no part of an option is refused at the end, whatever follows it.
  | case3 o extras text more ih | case4 o extras text more ih =>
    rw [follow] at h
    simpa using (ih h).1
  | case5 o extras more ih =>
    rw [follow] at h
    simpa using (ih h).1
  | case6 o extras option value more ih =>
    rw [follow] at h
    obtain ⟨o₁, hraise, hfollow⟩ := bind_eq_ok_iff.1 h
    obtain ⟨hextras, hmore⟩ := ih o₁ hfollow
    exact ⟨hextras, .short hraise hmore⟩
  | case7 o extras option hoption value more ih =>
    rw [follow, if_pos hoption] at h
    obtain ⟨o₁, hassign, hfollow⟩ := bind_eq_ok_iff.1 h
    obtain ⟨hextras, hmore⟩ := ih o₁ hfollow
    exact ⟨hextras, .assigned hoption hassign hmore⟩
  | case8 o extras option hoption value more ih =>
    rw [follow, if_pos hoption] at h
    obtain ⟨o₁, hassign, hfollow⟩ := bind_eq_ok_iff.1 h
    obtain ⟨hextras, hmore⟩ := ih o₁ hfollow
    exact ⟨hextras, .followed hoption hassign hmore⟩
  | case9 o extras option more hoption hnone =>
    rw [follow.eq_def] at h
    simp only [hoption, if_true] at h
    cases h
  | case10 o extras option value more hoption ih =>
    rw [follow.eq_def] at h
    simp only [hoption] at h
    obtain ⟨o₁, hraise, hfollow⟩ := bind_eq_ok_iff.1 h
    obtain ⟨hextras, hmore⟩ := ih o₁ hfollow
    exact ⟨hextras, .long (by simpa using hoption) hraise hmore⟩

theorem Accepts.separator_not_mem (h : Accepts o arguments o') : .separator ∉ arguments := by
  induction h with
  | done o => exact List.not_mem_nil
  | short _ _ ih | long _ _ _ ih | assigned _ _ _ ih | followed _ _ _ ih => simpa using ih

theorem Accepts.append (h : Accepts o arguments o₁) (hmore : Accepts o₁ more o') :
    Accepts o (arguments ++ more) o' := by
  induction h with
  | done o => exact hmore
  | short h _ ih => exact .short h (ih hmore)
  | long hoption h _ ih => exact .long hoption h (ih hmore)
  | assigned hoption h _ ih => exact .assigned hoption h (ih hmore)
  | followed hoption h _ ih => exact .followed hoption h (ih hmore)

theorem ofArguments_eq_ok_iff {texts : List String} : ofArguments texts = .ok o ↔
    ∃ arguments, Argument.ofTexts texts = .ok arguments ∧ Accepts {} arguments o := by
  unfold ofArguments
  cases Argument.ofTexts texts with
  | error e => simp
  | ok arguments =>
    constructor
    · intro h
      exact ⟨arguments, rfl, (accepts_of_follow h).2⟩
    · rintro ⟨_, ⟨⟩, h⟩
      exact h.follow_eq

theorem accepts_logLevel (o : Options) (level : Level) :
    Accepts o [.long .logLevel none, .plain level.name] { o with logLevel := .given level } := by
  have hassign : o.assign .logLevel level.name = .ok { o with logLevel := .given level } := by
    cases level <;> rfl
  exact .followed rfl hassign (.done _)

/-- A level after accepted arguments is accepted, too, and nothing else changes. -/
theorem ofArguments_append_logLevel {texts : List String} (h : ofArguments texts = .ok o)
    (level : Level) : ofArguments (texts ++ ["--log-level", level.name]) =
      .ok { o with logLevel := .given level } := by
  obtain ⟨arguments, htexts, haccepts⟩ := ofArguments_eq_ok_iff.1 h
  have hlevel : Argument.ofTexts ["--log-level", level.name] =
      .ok [.long .logLevel none, .plain level.name] := by
    cases level <;> rfl
  have hall := Argument.ofTexts_append htexts haccepts.separator_not_mem hlevel
  exact ofArguments_eq_ok_iff.2 ⟨_, hall, haccepts.append (accepts_logLevel o level)⟩

end

end Options

end SlotCalc
