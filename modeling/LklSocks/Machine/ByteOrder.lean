import Mathlib.Data.Nat.Digits.Defs

/-!
# Byte orders

A machine stores a number of `w` bytes with its least or its most significant byte first. The
network order is the latter. Loading bytes that arrived in network order and converting the
number loaded gives their network value on either machine, and a number converted before it is
stored leaves in network order.

## Main definitions

* `ByteOrder`: little-endian and big-endian machines
* `ByteOrder.load o bs`, `ByteOrder.store o w x`: a number in memory
* `ByteOrder.convert o w x`: the conversion between host and network order

## Main results

* `ByteOrder.store_load`, `ByteOrder.load_lt`: loading is a bijection with the numbers below
  `256 ^ w`
* `ByteOrder.convert_load`: network to host after a load
* `ByteOrder.store_convert`: host to network before a store
-/

/-- The order in which a machine stores the bytes of a number. -/
inductive ByteOrder
  | little
  | big
  deriving DecidableEq, Repr

namespace ByteOrder

/-- The number whose bytes are `bs`, least significant first. -/
def ofBytes (bs : List UInt8) : ℕ := Nat.ofDigits 256 (bs.map UInt8.toNat)

/-- The `w` lowest bytes of `x`, least significant first. -/
def toBytes : ℕ → ℕ → List UInt8
  | 0, _ => []
  | w + 1, x => UInt8.ofNat x :: toBytes w (x / 256)

@[simp] theorem ofBytes_nil : ofBytes [] = 0 := rfl

@[simp] theorem ofBytes_cons (b : UInt8) (bs : List UInt8) :
    ofBytes (b :: bs) = b.toNat + 256 * ofBytes bs := by
  simp [ofBytes, Nat.ofDigits_cons]

@[simp] theorem length_toBytes (w x : ℕ) : (toBytes w x).length = w := by
  induction w generalizing x with
  | zero => rfl
  | succ w ih => simp [toBytes, ih]

theorem ofBytes_lt (bs : List UInt8) : ofBytes bs < 256 ^ bs.length := by
  induction bs with
  | nil => simp
  | cons b bs ih =>
    have hb := b.toNat_lt
    rw [ofBytes_cons, List.length_cons, pow_succ]
    omega

theorem toBytes_ofBytes (bs : List UInt8) : toBytes bs.length (ofBytes bs) = bs := by
  induction bs with
  | nil => rfl
  | cons b bs ih =>
    have hb := b.toNat_lt
    have hdiv : (b.toNat + 256 * ofBytes bs) / 256 = ofBytes bs := by omega
    have hbyte : UInt8.ofNat (b.toNat + 256 * ofBytes bs) = b := by
      apply UInt8.toNat_inj.mp
      rw [UInt8.toNat_ofNat']
      omega
    rw [ofBytes_cons, List.length_cons, toBytes, hdiv, ih, hbyte]

/-- The bytes of `bs`, from least to most significant, on a machine of the order `o`. -/
def arrange : ByteOrder → List UInt8 → List UInt8
  | little, bs => bs
  | big, bs => bs.reverse

@[simp] theorem length_arrange (o : ByteOrder) (bs : List UInt8) :
    (o.arrange bs).length = bs.length := by
  cases o <;> simp [arrange]

@[simp] theorem arrange_arrange (o : ByteOrder) (bs : List UInt8) :
    o.arrange (o.arrange bs) = bs := by
  cases o <;> simp [arrange]

/-- The number a machine of the order `o` reads from the bytes `bs`. -/
def load (o : ByteOrder) (bs : List UInt8) : ℕ := ofBytes (o.arrange bs)

/-- The `w` bytes a machine of the order `o` writes for `x`. -/
def store (o : ByteOrder) (w x : ℕ) : List UInt8 := o.arrange (toBytes w x)

/-- The conversion between host and network order of a number of `w` bytes: a little-endian
machine reverses its bytes. The conversion is the same in both directions. -/
def convert : ByteOrder → ℕ → ℕ → ℕ
  | little, w, x => load big (toBytes w x)
  | big, _, x => x

@[simp] theorem length_store (o : ByteOrder) (w x : ℕ) : (o.store w x).length = w := by
  simp [store]

variable {w : ℕ} (bs : List UInt8)

theorem load_lt (o : ByteOrder) (hw : bs.length = w) : o.load bs < 256 ^ w := by
  subst hw
  simpa [load] using ofBytes_lt (o.arrange bs)

/-- Storing what was loaded restores the bytes. -/
theorem store_load (o : ByteOrder) (hw : bs.length = w) : o.store w (o.load bs) = bs := by
  subst hw
  have h := toBytes_ofBytes (o.arrange bs)
  rw [length_arrange] at h
  rw [store, load, h, arrange_arrange]

/-- **Network to host**: the converted load is the network value of the bytes. -/
theorem convert_load (o : ByteOrder) (hw : bs.length = w) :
    o.convert w (o.load bs) = load big bs := by
  subst hw
  cases o with
  | little =>
    show load big (toBytes bs.length (ofBytes bs)) = load big bs
    rw [toBytes_ofBytes]
  | big => rfl

/-- **Host to network**: a converted number is stored in network order. -/
theorem store_convert (o : ByteOrder) (w x : ℕ) : o.store w (o.convert w x) = store big w x := by
  cases o with
  | little =>
    have h := toBytes_ofBytes (toBytes w x).reverse
    rw [List.length_reverse, length_toBytes] at h
    exact h
  | big => rfl

theorem convert_lt (o : ByteOrder) {x : ℕ} (hx : x < 256 ^ w) : o.convert w x < 256 ^ w := by
  cases o with
  | little => exact load_lt _ big (length_toBytes w x)
  | big => exact hx

/-- Bytes in network order come back unchanged after a load, the two conversions and a
store. -/
theorem store_convert_convert_load (o : ByteOrder) (hw : bs.length = w) :
    o.store w (o.convert w (o.convert w (o.load bs))) = bs := by
  rw [store_convert, convert_load bs o hw, store_load bs big hw]

end ByteOrder
