import FourBit.Status
import FourBit.Numeral.Format

/-! How a machine state is laid out in text: one line for the registers and flags, one for each
cell, and a summary for debugging. -/
namespace FourBit.Snapshot

def stateLine (flags : List String) (a b c pc sp : String) : String :=
  let flagTexts := (Flag.all.zip flags).map fun (flag, text) => s!"{flag.label}={text}"
  s!"A=0x{a} B=0x{b} C=0x{c} PC=0x{pc} SP=0x{sp} " ++ " ".intercalate flagTexts

def cellLine (address : Int) (bits : String) (atPc atSp : Bool) : String :=
  s!"0x{Numeral.address.write address} {bits}" ++ (if atPc then " <-- PC" else "") ++
    (if atSp then " <-- SP" else "")

def summary (variant cycles state : String) : String :=
  s!"MachineSnapshot(variant={variant}, cycles={cycles}, {state})"

end FourBit.Snapshot
