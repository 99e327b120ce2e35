import Mathlib.Data.List.Nodup
import Mathlib.Logic.Function.Basic
import Mathlib.Tactic.Common

/-! # Tokens that are neither lost nor copied

Tokens are numbered in the order they are issued. A slot holds at most one token; a token that is spent leaves its slot
for good. Along any sequence of issuing, moving and spending, every issued token is in exactly one slot or has been spent
exactly once.
-/

namespace Libp2p.Library

variable {Slot : Type*} [DecidableEq Slot]

/-- Every issued token is in one slot or was spent, once. -/
structure Accounted (slots : Slot → Option ℕ) (spent : List ℕ) (issued : ℕ) : Prop where
  alone : ∀ left right token, slots left = some token → slots right = some token → left = right
  unspent : ∀ slot token, slots slot = some token → token ∉ spent
  once : spent.Nodup
  complete : ∀ token, token < issued ↔ (∃ slot, slots slot = some token) ∨ token ∈ spent

namespace Accounted

variable {slots : Slot → Option ℕ} {spent : List ℕ} {issued token : ℕ} {source target : Slot}

omit [DecidableEq Slot] in
theorem initial : Accounted (fun _ : Slot => none) [] 0 :=
  ⟨fun _ _ _ => nofun, fun _ _ => nofun, List.nodup_nil, fun token => by simp⟩

omit [DecidableEq Slot] in
theorem lt_issued (accounted : Accounted slots spent issued) (held : slots source = some token) : token < issued :=
  (accounted.complete token).mpr (.inl ⟨source, held⟩)

/-- A new token is put into an empty slot. -/
theorem issue (target : Slot) (accounted : Accounted slots spent issued) (empty : slots target = none) :
    Accounted (Function.update slots target (some issued)) spent (issued + 1) := by
  have new : ∀ slot, slots slot ≠ some issued := fun slot held => Nat.lt_irrefl _ (accounted.lt_issued held)
  refine ⟨fun left right token => ?_, fun slot token => ?_, accounted.once, fun token => ?_⟩
  · simp only [Function.update_apply]
    split_ifs with first second second
    · exact fun _ _ => first.trans second.symm
    · rintro ⟨⟩ held
      exact (new right held).elim
    · rintro held ⟨⟩
      exact (new left held).elim
    · exact accounted.alone left right token
  · simp only [Function.update_apply]
    split_ifs
    · rintro ⟨⟩ old
      exact Nat.lt_irrefl _ ((accounted.complete issued).mpr (.inr old))
    · exact accounted.unspent slot token
  · rw [Nat.lt_succ_iff_lt_or_eq, accounted.complete]
    constructor
    · rintro ((⟨slot, held⟩ | old) | rfl)
      · refine .inl ⟨slot, ?_⟩
        rw [Function.update_of_ne]
        · exact held
        · rintro rfl
          rw [empty] at held
          cases held
      · exact .inr old
      · exact .inl ⟨target, Function.update_self ..⟩
    · rintro (⟨slot, held⟩ | old)
      · rw [Function.update_apply] at held
        split_ifs at held
        · exact .inr (Option.some.inj held).symm
        · exact .inl (.inl ⟨slot, held⟩)
      · exact .inl (.inr old)

/-- A token leaves its slot and is spent. -/
theorem spend (source : Slot) (accounted : Accounted slots spent issued) (held : slots source = some token) :
    Accounted (Function.update slots source none) (token :: spent) issued := by
  refine ⟨fun left right other => ?_, fun slot other => ?_, ?_, fun other => ?_⟩
  · simp only [Function.update_apply]
    split_ifs
    · exact nofun
    · exact nofun
    · exact fun _ => nofun
    · exact accounted.alone left right other
  · rw [Function.update_apply]
    split_ifs with same
    · exact nofun
    · intro inside
      refine List.not_mem_cons_of_ne_of_not_mem ?_ (accounted.unspent slot other inside)
      rintro rfl
      exact same (accounted.alone slot source other inside held)
  · exact List.nodup_cons.mpr ⟨accounted.unspent source token held, accounted.once⟩
  · rw [accounted.complete, List.mem_cons]
    constructor
    · rintro (⟨slot, inside⟩ | old)
      · by_cases same : slot = source
        · subst same
          exact .inr (.inl (Option.some.inj (inside.symm.trans held)))
        · exact .inl ⟨slot, (Function.update_of_ne same ..).trans inside⟩
      · exact .inr (.inr old)
    · rintro (⟨slot, inside⟩ | rfl | old)
      · rw [Function.update_apply] at inside
        split_ifs at inside
        exact .inl ⟨slot, inside⟩
      · exact .inl ⟨source, held⟩
      · exact .inr old

/-- A token changes its slot. -/
theorem move (source target : Slot) (accounted : Accounted slots spent issued) (held : slots source = some token)
    (empty : slots target = none) :
    Accounted (Function.update (Function.update slots source none) target (some token)) spent issued := by
  have inside : ∀ slot other, Function.update (Function.update slots source none) target (some token) slot = some other ↔
      (slot = target ∧ other = token) ∨ (slot ≠ source ∧ slots slot = some other) := by
    intro slot other
    simp only [Function.update_apply]
    split_ifs with first second
    · subst first
      simp [empty, eq_comm]
    · subst second
      simp [first]
    · simp [first, second]
  refine ⟨fun left right other => ?_, fun slot other => ?_, accounted.once, fun other => ?_⟩
  · rw [inside, inside]
    rintro (⟨rfl, rfl⟩ | ⟨elsewhere, first⟩) (⟨rfl, same⟩ | ⟨elsewhere', second⟩)
    · rfl
    · exact (elsewhere' (accounted.alone _ _ _ second held)).elim
    · subst same
      exact (elsewhere (accounted.alone _ _ _ first held)).elim
    · exact accounted.alone left right other first second
  · rw [inside]
    rintro (⟨rfl, rfl⟩ | ⟨-, first⟩)
    · exact accounted.unspent source other held
    · exact accounted.unspent slot other first
  · rw [accounted.complete]
    refine or_congr_left ⟨?_, ?_⟩
    · rintro ⟨slot, first⟩
      by_cases same : slot = source
      · subst same
        exact ⟨target, (inside _ _).mpr (.inl ⟨rfl, Option.some.inj (first.symm.trans held)⟩)⟩
      · exact ⟨slot, (inside _ _).mpr (.inr ⟨same, first⟩)⟩
    · rintro ⟨slot, first⟩
      rcases (inside _ _).mp first with ⟨-, rfl⟩ | ⟨-, first⟩
      · exact ⟨source, held⟩
      · exact ⟨slot, first⟩

end Accounted

end Libp2p.Library
