import AutotestClient.Model.Harness.Numbers
import AutotestClient.Shared.Pattern

/-! # Open ports

`tc_find_port` of `linux-tools/shared/tc_utils.source`, with `grep` at hand. -/

namespace AutotestClient.Harness

open Shared Waiters

/-- The files of `/proc/net` by lines, and whether there is one called `if_inet6`. A file that is
missing has no lines. -/
structure Tables where
  tcp : List (List Char)
  udp : List (List Char)
  tcp6 : List (List Char)
  udp6 : List (List Char)
  ifInet6 : Bool

/-- The lines of `$listen`. -/
def Tables.listen (t : Tables) : List (List Char) :=
  if t.ifInet6 then t.tcp ++ t.tcp6 ++ t.udp ++ t.udp6 else t.tcp ++ t.udp

/-- `[0-9]` -/
def isDec (c : Char) : Bool := '0' ≤ c && c ≤ '9'

/-- `[0-9A-F]` -/
def isHex (c : Char) : Bool := isDec c || ('A' ≤ c && c ≤ 'F')

/-- `^ *[0-9][0-9]*: [0-9A-F][0-9A-F]*:$hex_port [0-9A-F]\+:[0-9A-F]\+ 0[A7]` -/
def portPattern (hexPort : List Char) : List (Piece Char) :=
  [.star (· = ' '), .one isDec, .star isDec, .lit ':', .lit ' ', .one isHex, .star isHex,
    .lit ':'] ++ (hexPort.map .lit ++ .lit ' ' ::
      [.one isHex, .star isHex, .lit ':', .one isHex, .star isHex, .lit ' ', .lit '0',
        .one fun c => c = 'A' || c = '7'])

/-- `grep -q` -/
def grepPort (hexPort : List Char) (lines : List (List Char)) : Bool :=
  lines.any (fits (portPattern hexPort))

section Search

variable (expr : List Char → Option ℤ) (date : List Char)

/-- The loop from `TC_PORT=$port` on. Only `fuel` rounds are run; `none` if they do not end it. -/
def searchPort (lines : List (List Char)) (endPort : ℤ) : ℕ → State → ℤ → Option (State × ℤ)
  | fuel, s, port =>
      if port ≤ endPort then
        match fuel with
        | 0 => none
        | fuel + 1 =>
            let (s, hexPort) := substitute date (tcDec2hex expr (printInt port) (some 4) []) s
            if grepPort hexPort lines then searchPort lines endPort fuel s (wrap (port + 1))
            else some (s, port)
      else some (s, port)

/-- `tc_find_port start range family`: `TC_PORT` after it and the status, if it returns. The bound
is that of its loop. -/
def tcFindPort (fuel : ℕ) (t : Tables) (start range : Option ℤ) (family : String) (s : State) :
    Except State (Option (PortState × ℕ)) := do
  let startPort := wrap (start.getD 23456)
  let s ← orExit (0 < startPort) ("tc_find_port: internal script error: " ++
    String.ofList ((start.map printInt).getD []) ++ " is invalid port number.") s
  let range := wrap (range.getD 100)
  let s ← orExit (0 < range) ("tc_find_port: internal script error: " ++
    String.ofList (printInt range) ++ " is an invalid range.") s
  let endPort := wrap (startPort + range - 1)
  let s ← orExit (family ∈ ["", "ipv4", "ipv6"])
    (family ++ " is an invalid argument to tc_find_port") s
  let listen := if family = "ipv4" then t.tcp ++ t.udp
    else if family = "ipv6" then t.tcp6 ++ t.udp6
    else t.listen
  return (searchPort expr date listen endPort fuel s startPort).map fun (s, port) =>
    if port ≤ endPort then (⟨s, some (printInt port)⟩, 0) else (⟨s, none⟩, 1)

end Search

end AutotestClient.Harness
