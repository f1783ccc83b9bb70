/-
# `Lib.ByteOrder` — fixed-width integers as bytes

The memory image of an unsigned integer of a given width, in either byte
order, and its reading back.  Both directions go through the base-256
digits of Mathlib; the byte order only says which end comes first.

The two directions undo each other: what is written is read back
(`ofBytes_toBytes`, for a value that fits the width), and what was read is
written again (`toBytes_ofBytes`).  So images of one width that read as the
same value are the same bytes (`ofBytes_inj`), and the value is zero when
every byte is, and only then (`ofBytes_eq_zero_iff`).

`htonl` and `ntohl` swap the bytes of a 32-bit value on a little-endian host
and do nothing on a big-endian one.  The memory image of a value in network
order is therefore the same on every host (`toBytes_htonl`), which is what
lets two hosts of different order share a stream or a file; a value stored
without the swap can be read back on hosts of one order only.
-/
import Mathlib.Data.Nat.Digits.Defs
import Mathlib.Data.Nat.Digits.Lemmas

/-- The order of the bytes of an integer in memory. -/
inductive ByteOrder where
  | little
  | big
deriving DecidableEq, Repr

namespace ByteOrder

/-- The `w` low-order bytes of `n`, least significant first. -/
def littleBytes : Nat → Nat → List UInt8
  | 0, _ => []
  | w + 1, n => UInt8.ofNat (n % 256) :: littleBytes w (n / 256)

/-- The value of a little-endian image. -/
def ofLittle (bs : List UInt8) : Nat := Nat.ofDigits 256 (bs.map UInt8.toNat)

/-- The memory image of `n` in `w` bytes. -/
def toBytes : ByteOrder → Nat → Nat → List UInt8
  | .little, w, n => littleBytes w n
  | .big, w, n => (littleBytes w n).reverse

/-- The value of a memory image. -/
def ofBytes : ByteOrder → List UInt8 → Nat
  | .little, bs => ofLittle bs
  | .big, bs => ofLittle bs.reverse

/-- `ntohl`: a 32-bit value read in the host's order is taken as one in
network order. -/
def ntohl (host : ByteOrder) (n : Nat) : Nat := ofBytes .big (toBytes host 4 n)

/-- `htonl`: the value that the host stores as `n` in network order. -/
def htonl (host : ByteOrder) (n : Nat) : Nat := ofBytes host (toBytes .big 4 n)

theorem length_littleBytes (w n : Nat) : (littleBytes w n).length = w := by
  induction w generalizing n with
  | zero => rfl
  | succ w ih => rw [littleBytes, List.length_cons, ih]

@[simp] theorem length_toBytes (o : ByteOrder) (w n : Nat) : (toBytes o w n).length = w := by
  cases o with
  | little => exact length_littleBytes w n
  | big => rw [toBytes, List.length_reverse, length_littleBytes]

theorem ofLittle_littleBytes {w n : Nat} (h : n < 256 ^ w) :
    ofLittle (littleBytes w n) = n := by
  induction w generalizing n with
  | zero =>
      have : n = 0 := by simpa using h
      subst this; rfl
  | succ w ih =>
      have hdiv : n / 256 < 256 ^ w := by
        rw [Nat.pow_succ] at h
        exact Nat.div_lt_of_lt_mul (by rwa [Nat.mul_comm] at h)
      have hlow : (UInt8.ofNat (n % 256)).toNat = n % 256 := by
        rw [UInt8.toNat_ofNat']
        omega
      have htail : Nat.ofDigits 256 ((littleBytes w (n / 256)).map UInt8.toNat) = n / 256 :=
        ih hdiv
      rw [ofLittle, littleBytes, List.map_cons, Nat.ofDigits_cons, hlow, htail]
      exact Nat.mod_add_div n 256

/-- What is written is read back. -/
theorem ofBytes_toBytes (o : ByteOrder) {w n : Nat} (h : n < 256 ^ w) :
    ofBytes o (toBytes o w n) = n := by
  cases o with
  | little => exact ofLittle_littleBytes h
  | big => rw [ofBytes, toBytes, List.reverse_reverse, ofLittle_littleBytes h]

theorem ofLittle_lt (bs : List UInt8) : ofLittle bs < 256 ^ bs.length := by
  have h := Nat.ofDigits_lt_base_pow_length (b := 256) (l := bs.map UInt8.toNat) (by decide)
    (fun x hx => by
      obtain ⟨b, -, rfl⟩ := List.mem_map.mp hx
      exact b.toNat_lt)
  simpa [ofLittle] using h

theorem ofBytes_lt (o : ByteOrder) (bs : List UInt8) : ofBytes o bs < 256 ^ bs.length := by
  cases o with
  | little => exact ofLittle_lt bs
  | big => simpa [ofBytes] using ofLittle_lt bs.reverse

theorem ofLittle_inj {bs cs : List UInt8} (hlen : bs.length = cs.length)
    (h : ofLittle bs = ofLittle cs) : bs = cs := by
  have hmap : bs.map UInt8.toNat = cs.map UInt8.toNat := by
    refine Nat.ofDigits_inj_of_len_eq (b := 256) (by decide) (by simpa using hlen) ?_ ?_ h
    all_goals
      intro x hx
      obtain ⟨b, -, rfl⟩ := List.mem_map.mp hx
      exact b.toNat_lt
  exact List.map_injective_iff.mpr (fun _ _ => UInt8.toNat_inj.mp) hmap

theorem ofBytes_inj (o : ByteOrder) {bs cs : List UInt8} (hlen : bs.length = cs.length)
    (h : ofBytes o bs = ofBytes o cs) : bs = cs := by
  cases o with
  | little => exact ofLittle_inj hlen h
  | big => exact List.reverse_injective (ofLittle_inj (by simpa using hlen) h)

theorem toBytes_ofBytes (o : ByteOrder) (bs : List UInt8) :
    toBytes o bs.length (ofBytes o bs) = bs :=
  ofBytes_inj o (length_toBytes _ _ _) (ofBytes_toBytes o (ofBytes_lt o bs))

theorem ntohl_ofBytes (host : ByteOrder) {bs : List UInt8} (h : bs.length = 4) :
    ntohl host (ofBytes host bs) = ofBytes .big bs := by
  rw [ntohl, ← h, toBytes_ofBytes]

/-- The memory image of a value in network order is the same on every host. -/
theorem toBytes_htonl (host : ByteOrder) (n : Nat) :
    toBytes host 4 (htonl host n) = toBytes .big 4 n := by
  have h := toBytes_ofBytes host (toBytes .big 4 n)
  rwa [length_toBytes] at h

theorem ntohl_htonl (host : ByteOrder) {n : Nat} (h : n < 256 ^ 4) :
    ntohl host (htonl host n) = n := by
  rw [ntohl, toBytes_htonl, ofBytes_toBytes .big h]

theorem ofBytes_zeros (o : ByteOrder) (w : Nat) : ofBytes o (List.replicate w 0) = 0 := by
  have hz : ∀ w, ofLittle (List.replicate w 0) = 0 := by
    intro w
    induction w with
    | zero => rfl
    | succ w ih =>
        rw [ofLittle] at ih ⊢
        rw [List.replicate_succ, List.map_cons, Nat.ofDigits_cons, ih]
        rfl
  cases o with
  | little => exact hz w
  | big => rw [ofBytes, List.reverse_replicate, hz]

theorem ofBytes_eq_zero_iff (o : ByteOrder) {bs : List UInt8} :
    ofBytes o bs = 0 ↔ ∀ b ∈ bs, b = 0 := by
  constructor
  · intro h
    have : bs = List.replicate bs.length 0 :=
      ofBytes_inj o (by simp) (h.trans (ofBytes_zeros o _).symm)
    exact List.eq_replicate_iff.mp this |>.2
  · intro h
    rw [List.eq_replicate_iff.mpr ⟨rfl, h⟩, ofBytes_zeros]

end ByteOrder
