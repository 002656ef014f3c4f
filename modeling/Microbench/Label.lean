/-! Names of program points and functions. All are a text followed by a decimal number, so that
two names of one kind differ when their numbers do. -/
namespace Microbench

def cycleLabel (label : Nat) : String := ".L" ++ toString label

def loopLabel (width : Nat) : String := ".Lilp" ++ toString width

def symbolName (start : String) (number : Nat) : String := start ++ toString number

end Microbench
