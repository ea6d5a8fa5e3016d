/-!
Machine words. Sizes, strides and element counts are 64-bit words: every sum
and product of them is taken modulo two to the sixty-fourth. Signed readings
of a word are two's complement, at 64 bits for sizes and 32 bits for axes.
-/

namespace Featurize.Word

/-- The number of distinct words: two to the sixty-fourth. -/
def modulus : Nat := 18446744073709551616

/-- One more than the largest signed 64-bit integer. -/
def signedLimit : Int := 9223372036854775808

def signedLimit32 : Int := 2147483648

def wrap (count : Nat) : Nat := count % modulus

theorem wrap_lt (count : Nat) : wrap count < modulus :=
  Nat.mod_lt count (by decide)

theorem wrap_of_lt {count : Nat} (small : count < modulus) : wrap count = count :=
  Nat.mod_eq_of_lt small

theorem wrap_wrap (count : Nat) : wrap (wrap count) = wrap count :=
  wrap_of_lt (wrap_lt count)

/-- The size that an integer denotes: negative ones count down from the modulus. -/
def ofInt (value : Int) : Nat := (value % modulus).toNat

theorem ofInt_natCast {size : Nat} (small : size < modulus) : ofInt (size : Int) = size := by
  unfold ofInt
  rw [← Int.natCast_emod, Nat.mod_eq_of_lt small]
  rfl

/-- The signed reading of a 64-bit word. -/
def signed (value : Int) : Int := value.bmod modulus

def signed32 (value : Int) : Int := value.bmod 4294967296

end Featurize.Word
