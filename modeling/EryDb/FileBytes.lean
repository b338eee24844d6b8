import Mathlib.Data.List.Basic
import Mathlib.Tactic.SplitIfs

/-!
# Reading and writing byte ranges of a file

A file is the list of its bytes. Reading takes at most the bytes that are there; writing
replaces the bytes of a range, and a write that starts behind the end fills the hole.
-/

namespace FileBytes

variable {Byte : Type*}

def readAt (file : List Byte) (offset size : Nat) : List Byte := (file.drop offset).take size

def writeAt (hole : Byte) (file : List Byte) (offset : Nat) (bytes : List Byte) : List Byte :=
  file.take offset ++ List.replicate (offset - file.length) hole ++ bytes ++
    file.drop (offset + bytes.length)

end FileBytes
