import Mainsail.Contracts.UsernamesV1
import Mathlib.Computability.Language

/-!
# The grammar of usernames

The rules above `_verifyUsername` as a language, `[a-z0-9]+(_[a-z0-9]+)*`. The loop reads the
character after an underscore without a test. It is there, because the last character of the
string was tested not to be an underscore.
-/

namespace Mainsail.UsernamesV1

open scoped Computability
open Language

/-- `[a-z0-9]` -/
def alphanumeric : Language UInt8 :=
  {w | ∃ c : UInt8, (0x61 ≤ c ∧ c ≤ 0x7A ∨ 0x30 ≤ c ∧ c ≤ 0x39) ∧ w = [c]}

/-- `[a-z0-9]+` -/
def word : Language UInt8 := alphanumeric * alphanumeric∗

/-- `(_[a-z0-9]+)*` -/
def tail : Language UInt8 := ({[underscore]} * word)∗

/-- `[a-z0-9]+(_[a-z0-9]+)*` -/
def grammar : Language UInt8 := word * tail

variable {c : UInt8} {bs : Bytes}

/-- A name goes on inside a word or has come to its end. -/
theorem grammar_eq : grammar = alphanumeric * (tail + grammar) := by
  calc grammar = alphanumeric * ((1 + alphanumeric * alphanumeric∗) * tail) := by
        rw [one_add_self_mul_kstar_eq_kstar, ← mul_assoc]
        rfl
    _ = alphanumeric * (tail + grammar) := by
        rw [add_mul, one_mul]
        rfl

theorem tail_eq : tail = 1 + {[underscore]} * grammar := by
  rw [tail, ← one_add_self_mul_kstar_eq_kstar, mul_assoc]
  rfl

theorem singleton_mem_alphanumeric : [c] ∈ alphanumeric ↔ isAllowed c ∧ c ≠ underscore := by
  have range : (0x61 ≤ c ∧ c ≤ 0x7A ∨ 0x30 ≤ c ∧ c ≤ 0x39) ↔ isAllowed c ∧ c ≠ underscore := by
    simp [isAllowed, underscore, UInt8.le_iff_toNat_le, ← UInt8.toNat_inj]
    omega
  rw [← range]
  constructor
  · rintro ⟨_, own, same⟩
    rwa [List.singleton_inj.mp same]
  · intro own
    exact ⟨c, own, rfl⟩

theorem cons_mem_grammar :
    c :: bs ∈ grammar ↔ (isAllowed c ∧ c ≠ underscore) ∧ (bs ∈ tail ∨ bs ∈ grammar) := by
  rw [grammar_eq, mem_mul, ← grammar_eq, ← singleton_mem_alphanumeric]
  constructor
  · rintro ⟨_, ⟨first, range, rfl⟩, rest, member, same⟩
    obtain ⟨rfl, rfl⟩ := List.cons.inj same
    exact ⟨⟨_, range, rfl⟩, member⟩
  · rintro ⟨first, member⟩
    exact ⟨[c], first, bs, member, rfl⟩

theorem nil_not_mem_grammar : [] ∉ grammar := by
  rw [grammar_eq, mem_mul]
  rintro ⟨_, ⟨c, -, rfl⟩, rest, -, same⟩
  cases same

theorem nil_mem_tail : [] ∈ tail := nil_mem_kstar _

theorem cons_mem_tail : c :: bs ∈ tail ↔ c = underscore ∧ bs ∈ grammar := by
  rw [tail_eq, mem_add, mem_one, mem_mul]
  constructor
  · rintro (same | ⟨_, rfl, rest, member, same⟩)
    · cases same
    · obtain ⟨rfl, rfl⟩ := List.cons.inj same
      exact ⟨rfl, member⟩
  · rintro ⟨rfl, member⟩
    exact .inr ⟨[underscore], rfl, bs, member, rfl⟩

/-- The rules on what is left of a name from some character on. -/
theorem rules_iff :
    ((∀ c ∈ bs, isAllowed c) ∧ bs.getLast? ≠ some underscore ∧
      bs.IsChain fun c d => ¬ (c = underscore ∧ d = underscore)) ↔ bs ∈ tail ∨ bs ∈ grammar := by
  induction bs with
  | nil => simp [nil_mem_tail]
  | cons c rest ih =>
    cases rest with
    | nil => simp [cons_mem_tail, cons_mem_grammar, nil_mem_tail, nil_not_mem_grammar]
    | cons d rest =>
      have here : (∀ x ∈ c :: d :: rest, isAllowed x) ↔
          isAllowed c ∧ ∀ x ∈ d :: rest, isAllowed x := List.forall_mem_cons
      rw [here, List.getLast?_cons_cons, List.isChain_cons_cons, cons_mem_tail,
        @cons_mem_grammar c (d :: rest)]
      -- After an underscore a name goes on with a word, so not with another underscore.
      by_cases separator : c = underscore
      · have word : d :: rest ∈ grammar ↔ d ≠ underscore ∧ (d :: rest ∈ tail ∨ d :: rest ∈ grammar) := by
          rw [cons_mem_tail, cons_mem_grammar]
          tauto
        have allowed : isAllowed underscore := rfl
        rw [word, ← ih, separator]
        tauto
      · rw [← ih]
        tauto

theorem wellFormed_iff_grammar {username : Bytes} :
    WellFormed username ↔ 1 ≤ username.length ∧ username.length ≤ 20 ∧ username ∈ grammar := by
  constructor
  · intro h
    obtain ends | member := rules_iff.mp ⟨h.allowed, h.finish, h.noRepeat⟩
    · cases username with
      | nil => exact absurd h.nonempty (by simp)
      | cons c rest => exact absurd (congrArg some (cons_mem_tail.mp ends).1) h.start
    · exact ⟨h.nonempty, h.short, member⟩
  · rintro ⟨nonempty, short, member⟩
    obtain ⟨allowed, finish, noRepeat⟩ := rules_iff.mpr (.inr member)
    refine ⟨nonempty, short, allowed, ?_, finish, noRepeat⟩
    cases username with
    | nil => simp
    | cons c rest =>
      intro start
      exact (cons_mem_grammar.mp member).1.2 (Option.some.inj start)

/-- For every string the verification comes to an answer, so no index is out of bounds. -/
theorem verifyUsername_iff_grammar (username : Bytes) :
    ∃ valid, verifyUsername username = .ok valid ∧
      (valid = true ↔ 1 ≤ username.length ∧ username.length ≤ 20 ∧ username ∈ grammar) := by
  obtain ⟨valid, verified, spec⟩ := verifyUsername_spec username
  exact ⟨valid, verified, spec.trans wellFormed_iff_grammar⟩

end Mainsail.UsernamesV1
