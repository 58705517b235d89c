/-
  Symbolic cryptography: messages as terms and what an attacker derives from them.

  Diffie-Hellman, key derivation and authenticated encryption are perfect.  The key of a
  pair of exponents is a term of its own, so that both parties compute the same one;
  deriving it takes one exponent and the public key of the other.

  * `Derives`: what follows from a set of terms.
  * `Closed`: a set of terms that derivation does not leave; `Derives.mem` is the
    induction.
  * `Term.Harmless`: the largest set we need, for an attacker who has some of the
    exponents and none of the secrets.
-/
import Mathlib

namespace Symbolic

/-- Messages over the data `D`, the secrets `S` and the exponents `X`. -/
inductive Term (D S X : Type) where
  | data (d : D)
  | secret (s : S)
  | exponent (x : X)
  | pub (x : X)
  /-- the key derived from the product of two exponents -/
  | shared (p : Sym2 X)
  /-- `m` sealed under the key `k` and the nonce `n` -/
  | aead (k : Term D S X) (n : ℕ) (m : Term D S X)
  deriving DecidableEq

variable {D S X : Type} {T T' G : Set (Term D S X)} {t k m : Term D S X} {x y : X} {n : ℕ}

/-- What an attacker derives from the terms it knows. -/
inductive Derives (T : Set (Term D S X)) : Term D S X → Prop
  | known {t : Term D S X} : t ∈ T → Derives T t
  | data {d : D} : Derives T (.data d)
  | pub {x : X} : Derives T (.exponent x) → Derives T (.pub x)
  | shared {x y : X} : Derives T (.exponent x) → Derives T (.pub y) → Derives T (.shared s(x, y))
  | encrypt {k m : Term D S X} {n : ℕ} : Derives T k → Derives T m → Derives T (.aead k n m)
  | decrypt {k m : Term D S X} {n : ℕ} : Derives T (.aead k n m) → Derives T k → Derives T m

/-- More knowledge derives more. -/
theorem Derives.mono (h : Derives T t) (hT : T ⊆ T') : Derives T' t := by
  induction h with
  | known h => exact .known (hT h)
  | data => exact .data
  | pub _ ih => exact .pub ih
  | shared _ _ ih₁ ih₂ => exact .shared ih₁ ih₂
  | encrypt _ _ ih₁ ih₂ => exact .encrypt ih₁ ih₂
  | decrypt _ _ ih₁ ih₂ => exact .decrypt ih₁ ih₂

/-- Derivation does not leave the set. -/
structure Closed (G : Set (Term D S X)) : Prop where
  data : ∀ d, .data d ∈ G
  pub : ∀ x, .exponent x ∈ G → .pub x ∈ G
  shared : ∀ x y, .exponent x ∈ G → .pub y ∈ G → .shared s(x, y) ∈ G
  encrypt : ∀ k n m, k ∈ G → m ∈ G → .aead k n m ∈ G
  decrypt : ∀ k n m, .aead k n m ∈ G → k ∈ G → m ∈ G

/-- **Everything derived from a part of a closed set is in the set.** -/
theorem Derives.mem (h : Derives T t) (hG : Closed G) (hT : T ⊆ G) : t ∈ G := by
  induction h with
  | known h => exact hT h
  | data => exact hG.data _
  | pub _ ih => exact hG.pub _ ih
  | shared _ _ ih₁ ih₂ => exact hG.shared _ _ ih₁ ih₂
  | encrypt _ _ ih₁ ih₂ => exact hG.encrypt _ _ _ ih₁ ih₂
  | decrypt _ _ ih₁ ih₂ => exact hG.decrypt _ _ _ ih₁ ih₂

/-- A term that may become known to an attacker who has the exponents `bad`: it has no
    secret, except under a key that takes an exponent the attacker has not. -/
def Term.Harmless (bad : X → Prop) : Term D S X → Prop
  | .data _ | .pub _ => True
  | .secret _ => False
  | .exponent x => bad x
  | .shared p => ∃ x ∈ p, bad x
  | .aead k _ m => k.Harmless bad → m.Harmless bad

variable {bad : X → Prop}

theorem closed_harmless : Closed {t : Term D S X | t.Harmless bad} where
  data _ := trivial
  pub _ _ := trivial
  shared x _ hx _ := ⟨x, Sym2.mem_mk_left _ _, hx⟩
  encrypt _ _ _ _ hm _ := hm
  decrypt _ _ _ h hk := h hk

theorem Derives.harmless (h : Derives T t) (hT : ∀ t ∈ T, t.Harmless bad) : t.Harmless bad :=
  h.mem closed_harmless hT

/-- A key between exponents the attacker has not hides what it seals. -/
theorem harmless_sealed {p : Sym2 X} (hp : ∀ x ∈ p, ¬ bad x) :
    (Term.aead (.shared p) n m).Harmless bad :=
  fun ⟨x, hx, hb⟩ => absurd hb (hp x hx)

end Symbolic
