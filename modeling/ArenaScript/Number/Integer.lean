/-!
# Integers written as text

A sign is optional, at least one digit follows, and nothing else may stand in
the text: no blanks and no separators.
-/

namespace ArenaScript.Number

def digit? (radix : Nat) (c : Char) : Option Nat :=
  let value :=
    if '0' ≤ c && c ≤ '9' then some (c.toNat - '0'.toNat)
    else if 'a' ≤ c && c ≤ 'f' then some (c.toNat - 'a'.toNat + 10)
    else if 'A' ≤ c && c ≤ 'F' then some (c.toNat - 'A'.toNat + 10)
    else none
  value.filter (· < radix)

def digits? (radix acc : Nat) : List Char → Option Nat
  | [] => some acc
  | c :: rest => do digits? radix (acc * radix + (← digit? radix c)) rest

def natural? (radix : Nat) : List Char → Option Nat
  | [] => none
  | cs => digits? radix 0 cs

def unsigned? (bound : Nat) (text : String) : Option Nat :=
  let value :=
    match text.toList with
    | '+' :: rest => natural? 10 rest
    | cs => natural? 10 cs
  value.filter (· < bound)

def signed? (radix : Nat) (cs : List Char) : Option Int64 :=
  let value : Option Int :=
    match cs with
    | '+' :: rest => (natural? radix rest).map Int.ofNat
    | '-' :: rest => (natural? radix rest).map fun n => -Int.ofNat n
    | cs => (natural? radix cs).map Int.ofNat
  (value.filter fun v => -9223372036854775808 ≤ v &&
    v < 9223372036854775808).map Int64.ofInt

def decimal? (text : String) : Option Int64 := signed? 10 text.toList

/-- An integer literal: hexadecimal after `0x` or `0X`, decimal otherwise. -/
def literal? (text : String) : Option Int64 :=
  match text.toList with
  | '0' :: 'x' :: rest => signed? 16 rest
  | '0' :: 'X' :: rest => signed? 16 rest
  | cs => signed? 10 cs

def fitsInt32 (v : Int64) : Bool := v.toInt32.toInt64 == v

end ArenaScript.Number
