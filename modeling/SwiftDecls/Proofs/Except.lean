import Mathlib.Data.List.Forall2

/-!
# Steps that can fail

What it means that a sequence of steps ends well: each step does, on what the steps before it have
left. So steps that do not disturb one another may come in any order (`foldlM_perm`).
-/

set_option autoImplicit false

namespace SwiftDecls

variable {ε α β γ : Type}

/-- Two parts end well if each does. -/
theorem bind_eq_ok_iff {x : Except ε α} {f : α → Except ε β} {b : β} :
    x >>= f = .ok b ↔ ∃ a, x = .ok a ∧ f a = .ok b := by
  cases x <;> simp [bind, Except.bind]

/-- Two parts fail if the first one does or the second one after it. -/
theorem bind_eq_error_iff {x : Except ε α} {f : α → Except ε β} {e : ε} :
    x >>= f = .error e ↔ x = .error e ∨ ∃ a, x = .ok a ∧ f a = .error e := by
  cases x <;> simp [bind, Except.bind]

theorem map_eq_ok_iff {x : Except ε α} {f : α → β} {b : β} :
    x.map f = .ok b ↔ ∃ a, x = .ok a ∧ f a = b := by
  cases x <;> simp [Except.map]

/-- A step for each of the items ends well if all of them do. -/
theorem mapM_eq_ok_iff {f : α → Except ε β} {as : List α} {bs : List β} :
    as.mapM f = .ok bs ↔ List.Forall₂ (fun a b => f a = .ok b) as bs := by
  induction as generalizing bs with
  | nil => simp [pure, Except.pure, eq_comm]
  | cons a as ih =>
    simp only [List.mapM_cons, bind_eq_ok_iff, ih, List.forall₂_cons_left_iff, pure, Except.pure,
      Except.ok.injEq]
    constructor
    · rintro ⟨b, hb, bs, hbs, rfl⟩
      exact ⟨b, bs, hb, hbs, rfl⟩
    · rintro ⟨b, bs, hb, hbs, rfl⟩
      exact ⟨b, hb, bs, hbs, rfl⟩

theorem foldlM_cons_eq_ok_iff {f : β → α → Except ε β} {a : α} {as : List α} {b c : β} :
    (a :: as).foldlM f b = .ok c ↔ ∃ b', f b a = .ok b' ∧ as.foldlM f b' = .ok c := by
  rw [List.foldlM_cons, bind_eq_ok_iff]

theorem foldlM_append_eq_ok_iff {f : β → α → Except ε β} {as as' : List α} {b c : β} :
    (as ++ as').foldlM f b = .ok c ↔ ∃ b', as.foldlM f b = .ok b' ∧ as'.foldlM f b' = .ok c := by
  rw [List.foldlM_append, bind_eq_ok_iff]

/-- A sequence of steps fails as its first step does that fails. -/
theorem foldlM_middle_eq_error {f : β → α → Except ε β} {before after : List α} {a : α} {b b' : β}
    {e : ε} (hbefore : before.foldlM f b = .ok b') (ha : f b' a = .error e) :
    (before ++ a :: after).foldlM f b = .error e := by
  rw [List.foldlM_append, hbefore]
  show (a :: after).foldlM f b' = .error e
  rw [List.foldlM_cons, ha]
  rfl

/-- A step for each of the items fails as it does for the first item for which it fails. -/
theorem mapM_middle_eq_error {f : α → Except ε β} {before after : List α} {a : α} {bs : List β}
    {e : ε} (hbefore : before.mapM f = .ok bs) (ha : f a = .error e) :
    (before ++ a :: after).mapM f = .error e := by
  rw [List.mapM_append, hbefore, List.mapM_cons, ha]
  rfl

/-- Where a sequence of steps ends well, each of the steps did. -/
theorem exists_ok_of_foldlM {f : β → α → Except ε β} {as : List α} {b c : β}
    (h : as.foldlM f b = .ok c) : ∀ a ∈ as, ∃ b b', f b a = .ok b' := by
  induction as generalizing b with
  | nil => simp
  | cons a as ih =>
    obtain ⟨b', hb', hrest⟩ := foldlM_cons_eq_ok_iff.1 h
    exact List.forall_mem_cons.2 ⟨⟨b, b', hb'⟩, ih hrest⟩

/-- Steps with different keys that do not disturb one another end well in any order, and with the
same result. -/
theorem foldlM_perm {f : β → α → Except ε β} {key : α → γ} {as as' : List α} (h : as.Perm as')
    (hkeys : (as.map key).Nodup)
    (hswap : ∀ a ∈ as, ∀ a' ∈ as, key a ≠ key a' → ∀ b b' c, f b a = .ok b' → f b' a' = .ok c →
      ∃ b', f b a' = .ok b' ∧ f b' a = .ok c) {b c : β} (hrun : as.foldlM f b = .ok c) :
    as'.foldlM f b = .ok c := by
  induction h generalizing b with
  | nil => exact hrun
  | cons a _ ih =>
    obtain ⟨b', hb', hrest⟩ := foldlM_cons_eq_ok_iff.1 hrun
    refine foldlM_cons_eq_ok_iff.2 ⟨b', hb', ih (List.nodup_cons.1 hkeys).2 ?_ hrest⟩
    exact fun a ha a' ha' => hswap a (.tail _ ha) a' (.tail _ ha')
  | swap a a' as =>
    obtain ⟨b₁, hfirst, hrest⟩ := foldlM_cons_eq_ok_iff.1 hrun
    obtain ⟨b₂, hsecond, hrest⟩ := foldlM_cons_eq_ok_iff.1 hrest
    have hne : key a' ≠ key a := by
      rw [List.map_cons, List.map_cons, List.nodup_cons] at hkeys
      exact fun heq => hkeys.1 (heq ▸ List.mem_cons_self)
    obtain ⟨b', hfirst, hsecond⟩ := hswap a' (by simp) a (by simp) hne b b₁ b₂ hfirst hsecond
    exact foldlM_cons_eq_ok_iff.2 ⟨b', hfirst, foldlM_cons_eq_ok_iff.2 ⟨b₂, hsecond, hrest⟩⟩
  | trans hfirst _ ihFirst ihSecond =>
    refine ihSecond ((hfirst.map key).nodup_iff.1 hkeys) ?_ (ihFirst hkeys hswap hrun)
    exact fun a ha a' ha' => hswap a (hfirst.mem_iff.2 ha) a' (hfirst.mem_iff.2 ha')

end SwiftDecls
