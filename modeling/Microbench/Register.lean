/-! General-purpose registers, known by their numbers. -/
namespace Microbench

/-- A register number. Which of the 256 exist is for a calling convention to say. -/
structure Reg where
  number : Fin 256
deriving DecidableEq

namespace Reg

def ofNat (n : Nat) : Reg := ⟨Fin.ofNat 256 n⟩

instance {n : Nat} : OfNat Reg n := ⟨ofNat n⟩

def digits (r : Reg) : String := toString r.number.val

def text (r : Reg) : String := "r" ++ r.digits

theorem ofNat_number (reg : Reg) : ofNat reg.number.val = reg := by
  cases reg
  simp [ofNat, Fin.ofNat, Nat.mod_eq_of_lt]

end Reg

end Microbench
