import Mathlib.Algebra.Group.Nat.Defs
import Mathlib.Data.Nat.Sqrt
import Mathlib.Logic.Function.Basic

/-! # `primes.c`

The program of `linux-tools/gmp` that lists, counts and measures the primes of an interval with
a sieve that goes through the interval region by region. The numbers of `mpz_t` are `ℕ`. -/

namespace AutotestClient.Primes

/-- A sieving array: `true` is an entry other than `0`. -/
abbrev Sieve := ℕ → Bool

/-- `struct primes`, where `prime` is an `unsigned int` of 32 bits. -/
structure Prime where
  prime : ℕ
  rem : ℤ

/-- Accesses and calls that end the program. -/
inductive Fault where
  /-- `mpz_sqrt` of a negative number. -/
  | sqrtOfNegative
  /-- `primes[n_primes - 1]` without any primes. -/
  | noPrimes
  /-- `assert (est_n_primes >= n_primes)`, after an array of `est_n_primes` was filled. -/
  | assertion
  deriving DecidableEq

/-! ## The base of the sieve -/

/-- `for (; ii < ssize; ii += i) s[ii] = 0`. -/
def clear (s : Sieve) (ii i ssize : ℕ) : Sieve :=
  if 0 < i ∧ ii < ssize then clear (Function.update s ii false) (ii + i) i ssize else s
termination_by ssize - ii

/-- The loop of `make_primelist` over `i`. -/
def sieveBase (s : Sieve) (i maxprime ssize : ℕ) : Sieve :=
  if maxprime ≤ i * i then s
  else if s (i * i / 2 - 1) = false then sieveBase s (i + 2) maxprime ssize
  else sieveBase (clear s (i * i / 2 - 1) i ssize) (i + 2) maxprime ssize
termination_by maxprime - i
decreasing_by
  all_goals
    have hle := Nat.le_mul_self i
    omega

/-- `make_primelist`. -/
def makePrimelist (maxprime : ℕ) : Except Fault (List Prime) :=
  let ssize := maxprime / 2
  let s := sieveBase (fun _ => true) 3 maxprime ssize
  let primes := ((List.range ssize).filter s).map fun j => ⟨(j * 2 + 3) % 2 ^ 32, -1⟩
  match primes.getLast? with
  | none => .error .noPrimes
  | some last => .ok (if maxprime < last.prime then primes.dropLast else primes)

/-! ## One region -/

/-- `start2` in `sieve_region`, `none` at the `break`. -/
def start2 (fr ssize : ℕ) (p : Prime) : Option ℤ :=
  if 0 ≤ p.rem then some p.rem
  else if fr ≤ p.prime * p.prime then
    if 2 * ssize < p.prime * p.prime - fr then none
    else some ((p.prime * p.prime - fr) / 2 : ℕ)
  else
    let start := (p.prime - fr % p.prime) % p.prime
    some ((if start % 2 ≠ 0 then start + p.prime else start) / 2 : ℕ)

/-- `for (; k < 0; k += prime) se[k] = 0`, with `se` behind the `ssize` entries of `s`. -/
def clearEnd (s : Sieve) (ssize prime : ℕ) (k : ℤ) : Sieve × ℤ :=
  if 0 < prime ∧ k < 0 then
    clearEnd (Function.update s (ssize + k).toNat false) ssize prime (k + prime)
  else (s, k)
termination_by (-k).toNat

/-- The loop of `sieve_region` over `primes`. -/
def sieveLoop (fr ssize : ℕ) : List Prime → Sieve → List Prime × Sieve
  | [], s => ([], s)
  | p :: ps, s =>
      match start2 fr ssize p with
      | none => (p :: ps, s)
      | some start2 =>
          let (s, k) := clearEnd s ssize p.prime (start2 - ssize)
          let (ps, s) := sieveLoop fr ssize ps s
          (⟨p.prime, k⟩ :: ps, s)

/-- `sieve_region`. The array is set by words of eight entries. -/
def sieveRegion (primes : List Prime) (s : Sieve) (fr rsize : ℕ) : List Prime × Sieve :=
  let ssize := rsize / 2
  sieveLoop fr ssize primes fun i => decide (i < (ssize + 7) / 8 * 8) || s i

/-! ## The report -/

structure Options where
  flagCount : Bool
  flagMaxgap : Bool
  /-- An explicit `-p`. -/
  print : Bool
  deriving DecidableEq

/-- The options before the interval, and the arguments after them. -/
def getOptions : Options → List String → Options × List String
  | o, "-c" :: argv => getOptions { o with flagCount := true } argv
  | o, "-p" :: argv => getOptions { o with print := true } argv
  | o, "-g" :: argv => getOptions { o with flagMaxgap := true } argv
  | o, argv => (o, argv)

/-- `flag_print` after the options. -/
def Options.flagPrint (o : Options) : ℕ :=
  let flagPrint := if o.print then 2 else 1
  if o.flagCount || o.flagMaxgap then flagPrint - 1 else flagPrint

/-- The numbers that were printed, and the counters of `report`. -/
structure Report where
  printed : List ℕ
  totalPrimes : ℕ
  maxgap : ℕ
  prevPrimeLow : ℕ
  deriving DecidableEq

/-- `report`, with `unsigned long` of 64 bits. -/
def report (o : Options) (r : Report) (prime : ℕ) : Report :=
  let r := { r with totalPrimes := (r.totalPrimes + 1) % 2 ^ 64 }
  let r := if o.flagPrint ≠ 0 then { r with printed := r.printed ++ [prime] } else r
  if o.flagMaxgap then
    let low := prime % 2 ^ 64
    let gap := (low + (2 ^ 64 - r.prevPrimeLow)) % 2 ^ 64
    { r with
      maxgap := if r.prevPrimeLow ≠ 0 ∧ r.maxgap < gap then gap else r.maxgap
      prevPrimeLow := low }
  else r

/-! ## The search of a region -/

/-- The entries of one word of the array. The second component tells of `goto out`. -/
def findWord {α : Type*} (visit : α → ℕ → α) (s : Sieve) (ssize : ℕ) : List ℕ → α → α × Bool
  | [], a => (a, false)
  | i :: rest, a =>
      if s i then if ssize ≤ i then (a, true) else findWord visit s ssize rest (visit a i)
      else findWord visit s ssize rest a

/-- The words of the array, those that are `0` in one comparison. -/
def findWords {α : Type*} (visit : α → ℕ → α) (s : Sieve) (ssize : ℕ) : List ℕ → α → α
  | [], a => a
  | j :: rest, a =>
      let word := (List.range 8).map (j * 8 + ·)
      if word.all (!s ·) then findWords visit s ssize rest a
      else
        match findWord visit s ssize word a with
        | (a, true) => a
        | (a, false) => findWords visit s ssize rest a

/-- `find_primes`. The parameter stands for `mpz_probab_prime_p`. -/
def findPrimes (probab : ℕ → Bool) (o : Options) (s : Sieve) (fr ssize sievSqrLim : ℕ)
    (r : Report) : Report :=
  findWords (fun r i =>
    let prime := fr + i * 2
    if prime < sievSqrLim ∨ probab prime then report o r prime else r) s ssize
    (List.range ((ssize + 7) / 8)) r

/-! ## The program -/

/-- `S`. -/
def regionSize : ℕ := 1 <<< 15

/-- `SIEVE_LIMIT`. -/
def sieveLimit : ℕ := 10000000

/-- `mpz_setbit (n, 0)`. -/
def makeOdd (n : ℕ) : ℕ := 2 * (n / 2) + 1

/-- `sieve_lim`. -/
def sieveLim (fr2 to2 : ℕ) : ℕ :=
  let tmp := Nat.sqrt to2
  if tmp < sieveLimit then tmp
  else if (to2 : ℤ) - fr2 < sieveLimit then ((to2 : ℤ) - fr2).natAbs % 2 ^ 64
  else sieveLimit

/-- The loop of `main` over the regions. -/
def mainLoop (probab : ℕ → Bool) (o : Options) (sievSqrLim fr2 to2 : ℕ) (primes : List Prime)
    (s : Sieve) (r : Report) : Report :=
  if fr2 ≤ to2 then
    let rsize := if to2 < fr2 + regionSize then to2 - fr2 + 2 else regionSize
    let (primes, s) := sieveRegion primes s fr2 rsize
    let r := findPrimes probab o s fr2 (rsize / 2) sievSqrLim r
    mainLoop probab o sievSqrLim (fr2 + regionSize) to2 primes s r
  else r
termination_by to2 + 1 - fr2
decreasing_by
  rw [regionSize, Nat.one_shiftLeft]
  omega

/-- `main` for the numbers from `fr` to `upTo`. The parameter `est` stands for the estimate of the
number of primes up to a limit, which `main` computes in floating point, and `s` for what `malloc`
leaves in the array. -/
def main (probab : ℕ → Bool) (est : ℕ → ℕ) (s : Sieve) (o : Options) (fr upTo : ℤ) :
    Except Fault Report := do
  let r : Report := ⟨[], 0, 0, 0⟩
  let (r, fr2) := if fr < 3 then (report o r 2, 3) else (r, fr.toNat)
  let fr2 := makeOdd fr2
  if upTo ≤ 0 then throw .sqrtOfNegative
  let to2 := makeOdd (upTo - 1).toNat
  let lim := sieveLim fr2 to2
  let primes ← makePrimelist lim
  if est lim < primes.length then throw .assertion
  return mainLoop probab o ((lim + 1) * (lim + 1)) fr2 to2 primes s r

end AutotestClient.Primes
