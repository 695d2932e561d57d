import Mathlib.Data.List.Forall2
import Mainsail.Foundation.Endian

/-!
# Self-delimiting codecs

A codec writes a value as bytes and reads it back off the front of a byte string. Its two
laws travel with it: a value that fits is read back from what was written, whatever follows,
and what is read was written that way and no other. The combinators build codecs of
records, optional values, bounded byte strings and counted lists, and with them the laws.
-/

theorem Except.bind_eq_ok {ε α β : Type} {x : Except ε α} {f : α → Except ε β} {b : β} :
    x >>= f = .ok b ↔ ∃ a, x = .ok a ∧ f a = .ok b := by
  cases x <;> simp [bind, Except.bind]

theorem Except.bind_eq_error {ε α β : Type} {x : Except ε α} {f : α → Except ε β} {e : ε} :
    x >>= f = .error e ↔ x = .error e ∨ ∃ a, x = .ok a ∧ f a = .error e := by
  cases x <;> simp [bind, Except.bind]

theorem Except.mapError_eq_ok {ε ε' α : Type} {x : Except ε α} {f : ε → ε'} {a : α} :
    x.mapError f = .ok a ↔ x = .ok a := by
  cases x <;> simp [Except.mapError]

theorem Except.toOption_eq_some {ε α : Type} {x : Except ε α} {a : α} :
    x.toOption = some a ↔ x = .ok a := by
  cases x <;> simp [Except.toOption]

open List (append_assoc flatMap_cons forall_mem_cons)

/-- A traversal that succeeds evaluates every element. -/
theorem Except.mapM_eq_ok {ε α β : Type} {f : α → Except ε β} {as : List α} {bs : List β} :
    as.mapM f = .ok bs ↔ List.Forall₂ (fun a b => f a = .ok b) as bs := by
  induction as generalizing bs with
  | nil => cases bs <;> simp [pure, Except.pure]
  | cons a as ih =>
    simp only [List.mapM_cons, Except.bind_eq_ok, List.forall₂_cons_left_iff, pure, Except.pure,
      Except.ok.injEq, ih]
    constructor
    · rintro ⟨b, first, bs, others, rfl⟩
      exact ⟨b, bs, first, others, rfl⟩
    · rintro ⟨b, bs, first, others, rfl⟩
      exact ⟨b, first, bs, others, rfl⟩

/-- A traversal succeeds where the function does on every element. -/
theorem Except.exists_mapM {ε α β : Type} {f : α → Except ε β} {as : List α}
    (h : ∀ a ∈ as, ∃ b, f a = .ok b) : ∃ bs, as.mapM f = .ok bs := by
  induction as with
  | nil => exact ⟨[], rfl⟩
  | cons a as ih =>
    obtain ⟨⟨b, first⟩, rest⟩ := forall_mem_cons.mp h
    obtain ⟨bs, others⟩ := ih rest
    exact ⟨b :: bs, Except.mapM_eq_ok.mpr (.cons first (Except.mapM_eq_ok.mp others))⟩

/-- A way to write the values that fit, such that every byte string starts with at most one
of them. -/
structure Codec (α : Type) where
  Fits : α → Prop
  encode : α → List UInt8
  decode : List UInt8 → Option (α × List UInt8)
  decode_encode : ∀ {a rest}, Fits a → decode (encode a ++ rest) = some (a, rest)
  encode_decode : ∀ {bs a rest}, decode bs = some (a, rest) → Fits a ∧ bs = encode a ++ rest

namespace Codec

open Endian Option

variable {α β : Type}

/-- No encoding of a value is the beginning of the encoding of another. -/
theorem append_inj (c : Codec α) {a b : α} {r s : List UInt8} (ha : c.Fits a) (hb : c.Fits b)
    (same : c.encode a ++ r = c.encode b ++ s) : a = b ∧ r = s := by
  have read : c.decode (c.encode a ++ r) = some (a, r) := c.decode_encode ha
  rw [same, c.decode_encode hb] at read
  obtain ⟨rfl, rfl⟩ := Prod.mk.inj (some.inj read)
  exact ⟨rfl, rfl⟩

theorem decode_encode_nil (c : Codec α) {a : α} (ha : c.Fits a) :
    c.decode (c.encode a) = some (a, []) := by
  have whole : c.decode (c.encode a ++ []) = some (a, []) := c.decode_encode ha
  rwa [List.append_nil] at whole

theorem encode_inj (c : Codec α) {a b : α} (ha : c.Fits a) (hb : c.Fits b)
    (same : c.encode a = c.encode b) : a = b :=
  (c.append_inj (r := []) (s := []) ha hb (by simpa using same)).1

/-! ## Bytes and numbers -/

/-- Exactly `n` bytes. -/
def fixed (n : Nat) : Codec (List UInt8) where
  Fits := fun bs => bs.length = n
  encode := id
  decode := fun bs => if n ≤ bs.length then some (bs.take n, bs.drop n) else none
  decode_encode := by
    rintro bs rest rfl
    simp
  encode_decode := by
    intro bs a rest read
    split at read
    · next enough =>
        obtain ⟨rfl, rfl⟩ := Prod.mk.inj (some.inj read)
        exact ⟨by simpa using enough, (List.take_append_drop n bs).symm⟩
    · contradiction

/-- Write a value as one of another type, and read it back from there where it makes sense. -/
def via (c : Codec α) (Fits : β → Prop) (into : β → α) (back : α → Option β)
    (back_into : ∀ {b}, Fits b → c.Fits (into b) ∧ back (into b) = some b)
    (into_back : ∀ {a b}, c.Fits a → back a = some b → Fits b ∧ into b = a) : Codec β where
  Fits := Fits
  encode := fun b => c.encode (into b)
  decode := fun bs => (c.decode bs).bind fun read => (back read.1).map (·, read.2)
  decode_encode := by
    intro b rest fits
    rw [c.decode_encode (back_into fits).1, bind_some, (back_into fits).2, map_some]
  encode_decode := by
    intro bs b rest read
    obtain ⟨⟨a, rest'⟩, inner, outer⟩ := bind_eq_some_iff.mp read
    obtain ⟨b', found, same⟩ := map_eq_some_iff.mp outer
    obtain ⟨rfl, rfl⟩ := Prod.mk.inj same
    obtain ⟨fits, split⟩ := c.encode_decode inner
    obtain ⟨fits', rfl⟩ := into_back fits found
    exact ⟨fits', split⟩

/-- Little-endian numbers of the given width. -/
def little (width : Nat) : Codec Nat :=
  (fixed width).via (· < 256 ^ width) (Endian.little width) (fun bs => some (Endian.ofLittle bs))
    (fun fits => ⟨length_little _ _, congrArg some (ofLittle_little fits)⟩)
    (by
      rintro bs n rfl read
      cases read
      exact ⟨ofLittle_lt bs, little_ofLittle bs⟩)

/-- Big-endian numbers of the given width. -/
def big (width : Nat) : Codec Nat :=
  (fixed width).via (· < 256 ^ width) (Endian.big width) (fun bs => some (Endian.ofBig bs))
    (fun fits => ⟨length_big _ _, congrArg some (ofBig_big fits)⟩)
    (by
      rintro bs n rfl read
      cases read
      exact ⟨ofBig_lt bs, big_ofBig bs⟩)

/-! ## Records -/

def unit : Codec Unit where
  Fits := fun _ => True
  encode := fun _ => []
  decode := fun bs => some ((), bs)
  decode_encode := by simp
  encode_decode := by
    intro bs a rest read
    obtain ⟨-, rfl⟩ := Prod.mk.inj (some.inj read)
    exact ⟨trivial, rfl⟩

def pair (c : Codec α) (d : Codec β) : Codec (α × β) where
  Fits := fun p => c.Fits p.1 ∧ d.Fits p.2
  encode := fun p => c.encode p.1 ++ d.encode p.2
  decode := fun bs => (c.decode bs).bind fun first =>
    (d.decode first.2).map fun second => ((first.1, second.1), second.2)
  decode_encode := by
    rintro ⟨a, b⟩ rest ⟨fits, fits'⟩
    simp only [List.append_assoc, c.decode_encode fits, bind_some, d.decode_encode fits',
      map_some]
  encode_decode := by
    intro bs p rest read
    obtain ⟨⟨a, rest'⟩, first, read'⟩ := bind_eq_some_iff.mp read
    obtain ⟨⟨b, rest''⟩, second, same⟩ := map_eq_some_iff.mp read'
    obtain ⟨rfl, rfl⟩ := Prod.mk.inj same
    obtain ⟨fits, rfl⟩ := c.encode_decode first
    obtain ⟨fits', rfl⟩ := d.encode_decode second
    exact ⟨⟨fits, fits'⟩, by rw [List.append_assoc]⟩

/-- A flag byte, which is 0 or 1, before a value that may be missing. -/
def option (c : Codec α) : Codec (Option α) where
  Fits := fun o => ∀ a ∈ o, c.Fits a
  encode := fun o => match o with
    | none => [0]
    | some a => 1 :: c.encode a
  decode := fun bs => match bs with
    | [] => none
    | flag :: bs =>
      if flag = 0 then some (none, bs)
      else if flag = 1 then (c.decode bs).map fun read => (some read.1, read.2)
      else none
  decode_encode := by
    intro o rest fits
    cases o with
    | none => simp
    | some a => simp [c.decode_encode (fits a rfl)]
  encode_decode := by
    intro bs o rest read
    cases bs with
    | nil => contradiction
    | cons flag bs =>
      simp only at read
      split at read
      · next absent =>
          obtain ⟨rfl, rfl⟩ := Prod.mk.inj (some.inj read)
          exact ⟨by simp, by simp [absent]⟩
      · split at read
        · next present =>
            obtain ⟨⟨a, rest'⟩, inner, same⟩ := map_eq_some_iff.mp read
            obtain ⟨rfl, rfl⟩ := Prod.mk.inj same
            obtain ⟨fits, rfl⟩ := c.encode_decode inner
            exact ⟨by simpa using fits, by simp [present]⟩
        · contradiction

/-! ## Byte strings and lists -/

/-- A byte string after its length. -/
def sized (width : Nat) : Codec (List UInt8) where
  Fits := fun bs => bs.length < 256 ^ width
  encode := fun bs => (little width).encode bs.length ++ bs
  decode := fun bs => ((little width).decode bs).bind fun read => (fixed read.1).decode read.2
  decode_encode := by
    intro bs rest fits
    rw [List.append_assoc, (little width).decode_encode fits, bind_some]
    exact (fixed bs.length).decode_encode rfl
  encode_decode := by
    intro bs a rest read
    obtain ⟨⟨n, rest'⟩, first, second⟩ := bind_eq_some_iff.mp read
    obtain ⟨fits, rfl⟩ := (little width).encode_decode first
    obtain ⟨rfl, rfl⟩ := (fixed n).encode_decode second
    exact ⟨fits, by rw [List.append_assoc]; rfl⟩

/-- Read exactly `n` values. -/
def decodeCount (c : Codec α) : Nat → List UInt8 → Option (List α × List UInt8)
  | 0, bs => some ([], bs)
  | n + 1, bs => (c.decode bs).bind fun first =>
    (c.decodeCount n first.2).map fun others => (first.1 :: others.1, others.2)

theorem decodeCount_flatMap (c : Codec α) {as : List α} {rest : List UInt8}
    (fits : ∀ a ∈ as, c.Fits a) :
    c.decodeCount as.length (as.flatMap c.encode ++ rest) = some (as, rest) := by
  induction as with
  | nil => rfl
  | cons a as ih =>
    obtain ⟨head, tail⟩ := forall_mem_cons.mp fits
    rw [flatMap_cons, append_assoc, List.length_cons, decodeCount,
      c.decode_encode head, bind_some, ih tail, map_some]

theorem flatMap_decodeCount (c : Codec α) {n : Nat} {bs rest : List UInt8} {as : List α}
    (read : c.decodeCount n bs = some (as, rest)) :
    (as.length = n ∧ ∀ a ∈ as, c.Fits a) ∧ bs = as.flatMap c.encode ++ rest := by
  induction n generalizing bs as with
  | zero =>
    obtain ⟨rfl, rfl⟩ := Prod.mk.inj (some.inj read)
    simp
  | succ n ih =>
    obtain ⟨⟨a, rest'⟩, first, read'⟩ := bind_eq_some_iff.mp read
    obtain ⟨⟨as', rest''⟩, others, same⟩ := map_eq_some_iff.mp read'
    obtain ⟨rfl, rfl⟩ := Prod.mk.inj same
    obtain ⟨fits, rfl⟩ := c.encode_decode first
    obtain ⟨⟨rfl, fits'⟩, rfl⟩ := ih others
    refine ⟨⟨rfl, forall_mem_cons.mpr ⟨fits, fits'⟩⟩, ?_⟩
    rw [flatMap_cons, append_assoc]

/-- Encodings that are not empty can be told apart in a row. -/
theorem flatMap_inj (c : Codec α) (nonempty : ∀ a, c.encode a ≠ []) {as bs : List α}
    (fits : ∀ a ∈ as, c.Fits a) (fits' : ∀ b ∈ bs, c.Fits b)
    (same : as.flatMap c.encode = bs.flatMap c.encode) : as = bs := by
  induction as generalizing bs with
  | nil =>
    cases bs with
    | nil => rfl
    | cons b bs => simp [nonempty] at same
  | cons a as ih =>
    cases bs with
    | nil => simp [nonempty] at same
    | cons b bs =>
      obtain ⟨head, tail⟩ := forall_mem_cons.mp fits
      obtain ⟨head', tail'⟩ := forall_mem_cons.mp fits'
      obtain ⟨rfl, rest⟩ := c.append_inj head head' same
      rw [ih tail tail' rest]

/-- A list of known length. -/
def count (c : Codec α) (n : Nat) : Codec (List α) where
  Fits := fun as => as.length = n ∧ ∀ a ∈ as, c.Fits a
  encode := fun as => as.flatMap c.encode
  decode := c.decodeCount n
  decode_encode := by
    rintro as rest ⟨rfl, fits⟩
    exact c.decodeCount_flatMap fits
  encode_decode := c.flatMap_decodeCount

end Codec

/-! ## Writers

A hash is fed with bytes that nobody reads back. All that is asked of a writer is that what it
writes ends where it does, whatever follows. -/

/-- No two values that fit are written alike, and no value is the beginning of another. -/
def Delimits {α : Type} (Fits : α → Prop) (put : α → List UInt8) : Prop :=
  ∀ a b r s, Fits a → Fits b → put a ++ r = put b ++ s → a = b ∧ r = s

namespace Delimits

variable {α β : Type} {F : α → Prop} {G : β → Prop}
variable {put : α → List UInt8} {put' : β → List UInt8} {len : Nat → List UInt8}

theorem of_codec (c : Codec α) : Delimits c.Fits c.encode :=
  fun _ _ _ _ => c.append_inj

section

variable (h : Delimits F put)
include h

theorem append (h' : Delimits G put') :
    Delimits (fun p : α × β => F p.1 ∧ G p.2) fun p => put p.1 ++ put' p.2 := by
  rintro ⟨a, a'⟩ ⟨b, b'⟩ r s ⟨fits, fits'⟩ ⟨other, other'⟩ same
  rw [append_assoc, append_assoc] at same
  obtain ⟨rfl, rest⟩ := h a b _ _ fits other same
  obtain ⟨rfl, rfl⟩ := h' a' b' _ _ fits' other' rest
  exact ⟨rfl, rfl⟩

/-- A value is written as another that determines it. -/
theorem comap (into : β → α) (written : ∀ b, put' b = put (into b))
    (fits : ∀ b, G b → F (into b)) (inj : ∀ a b, G a → G b → into a = into b → a = b) :
    Delimits G put' := by
  intro a b r s first second same
  rw [written, written] at same
  obtain ⟨equal, rest⟩ := h _ _ r s (fits a first) (fits b second) same
  exact ⟨inj a b first second equal, rest⟩

/-- The flag byte is written by the first branch. -/
theorem option : Delimits (fun o : Option α => ∀ a ∈ o, F a) fun o =>
      match o with
      | none => [0]
      | some a => [1] ++ put a := by
  intro a b r s first second same
  cases a <;> cases b <;> simp_all
  next a b => exact h a b r s first second same

end

/-- The number of values comes before the values. -/
theorem list {L : Nat → Prop} (hlen : Delimits L len) (h : Delimits F put) :
    Delimits (fun as : List α => L as.length ∧ ∀ a ∈ as, F a) fun as =>
      len as.length ++ as.flatMap put := by
  intro as bs r s first second same
  rw [append_assoc, append_assoc] at same
  obtain ⟨length, rest⟩ := hlen _ _ _ _ first.1 second.1 same
  replace first := first.2
  replace second := second.2
  clear same
  induction as generalizing bs with
  | nil =>
    obtain rfl := List.eq_nil_of_length_eq_zero length.symm
    exact ⟨rfl, rest⟩
  | cons a as ih =>
    cases bs with
    | nil => cases length
    | cons b bs =>
      obtain ⟨head, tail⟩ := forall_mem_cons.mp first
      obtain ⟨head', tail'⟩ := forall_mem_cons.mp second
      rw [flatMap_cons, flatMap_cons, append_assoc, append_assoc] at rest
      obtain ⟨rfl, others⟩ := h a b _ _ head head' rest
      obtain ⟨rfl, rfl⟩ := ih bs (Nat.succ.inj length) others tail tail'
      exact ⟨rfl, rfl⟩

end Delimits
