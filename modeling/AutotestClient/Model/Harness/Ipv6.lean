import AutotestClient.Shared.Substitution
import Mathlib.Algebra.Ring.Nat

/-! # IPv6 addresses as text

`tc_parse_ipv6_addr` and `tc_ipv6_normalize` of `linux-tools/shared/tc_utils.source`. The
texts have no blanks and no glob characters, so the final `echo` prints them as they are. -/

namespace AutotestClient.Harness

open Shared

/-- `tc_parse_ipv6_addr`; an empty argument ends the testcase. -/
def tcParseIpv6Addr (addr : List Char) : Option (List Char) :=
  if addr = [] then none
  else
    let part (k : ℕ) := (addr.drop k).take 4
    let parsed := part 0
    let parsed := parsed ++ ':' :: part 4
    let parsed := parsed ++ ':' :: part 8
    let parsed := parsed ++ ':' :: part 12
    let parsed := parsed ++ ':' :: part 16
    let parsed := parsed ++ ':' :: part 20
    let parsed := parsed ++ ':' :: part 24
    some (parsed ++ ':' :: part 28)

/-- One round of part 1: `${temp_normal//:0/:}`, and a zero at the very start. -/
def dropZerosOnce (text : List Char) : List Char :=
  let normal := replaceAll [':', '0'] [':'] text
  if normal.take 1 = ['0'] then normal.drop 1 else normal

/-- The loop of part 1. Only `fuel` rounds are run; `none` if they do not end it. -/
def dropZeros : ℕ → List Char → List Char → Option (List Char)
  | fuel, temp, normal =>
      if temp = normal then some normal
      else
        match fuel with
        | 0 => none
        | fuel + 1 => dropZeros fuel normal (dropZerosOnce normal)

/-- `${text/::..:/::}` with a pattern of `k` colons. -/
def shortenColons (k : ℕ) (text : List Char) : List Char :=
  replaceFirst (List.replicate k ':') [':', ':'] text

/-- The first of the given substitutions that changes the text, as the `break`s of part 2
have it. -/
def firstChange {α : Type*} [DecidableEq α] : List (α → α) → α → α
  | [], a => a
  | f :: fs, a => if f a ≠ a then f a else firstChange fs a

/-- Part 2. -/
def compressColons : List Char → List Char :=
  firstChange ([7, 6, 5, 4, 3].map shortenColons)

/-- `tc_ipv6_normalize`, with a bound on the rounds of its first loop. -/
def tcIpv6Normalize (fuel : ℕ) (addr : List Char) : Option (List Char) :=
  (dropZeros fuel [] addr).map compressColons

/-! ## What the texts denote -/

/-- The 32 hex digits of an address, high digit first. -/
def hexDigits (addr : BitVec 128) : List Char :=
  (List.range 32).map fun i => Nat.digitChar (addr.toNat / 16 ^ (31 - i) % 16)

/-- The 16-bit groups of an address, `0` being the leftmost. -/
def group (addr : BitVec 128) (i : ℕ) : ℕ := addr.toNat / 65536 ^ (7 - i) % 65536

/-- The value of a lower-case hex digit. -/
def hexDigit? (c : Char) : Option ℕ :=
  if '0' ≤ c ∧ c ≤ '9' then some (c.toNat - '0'.toNat)
  else if 'a' ≤ c ∧ c ≤ 'f' then some (c.toNat - 'a'.toNat + 10)
  else none

/-- `GroupText g v`: `g` has one to four hex digits and the value `v`. -/
structure GroupText (g : List Char) (v : ℕ) : Prop where
  nonempty : g ≠ []
  short : g.length ≤ 4
  digits : ∀ c ∈ g, (hexDigit? c).isSome
  value : g.foldl (fun n c => 16 * n + (hexDigit? c).getD 0) 0 = v

/-- Groups with colons between them. -/
def colonJoin (gs : List (List Char)) : List Char := [':'].intercalate gs

/-- `Ipv6Text text addr`: the text form `text` denotes `addr`. It has eight groups, or at
most seven and one `::` for the zero groups that are missing. -/
inductive Ipv6Text : List Char → BitVec 128 → Prop where
  | full {gs : List (List Char)} {addr : BitVec 128}
      (h : List.Forall₂ GroupText gs ((List.range 8).map (group addr))) :
      Ipv6Text (colonJoin gs) addr
  | compressed {front back : List (List Char)} {vs ws : List ℕ} {addr : BitVec 128}
      (hfront : List.Forall₂ GroupText front vs) (hback : List.Forall₂ GroupText back ws)
      (hlen : vs.length + ws.length ≤ 7)
      (h : (List.range 8).map (group addr) =
        vs ++ List.replicate (8 - (vs.length + ws.length)) 0 ++ ws) :
      Ipv6Text (colonJoin front ++ [':', ':'] ++ colonJoin back) addr

end AutotestClient.Harness
