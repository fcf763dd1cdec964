import AutotestClient.Shared.Machine
import Mathlib.Data.List.Infix

/-! # The ftplib driver

`handlecmd` of `linux-tools/ftplib_test/ftptest.c` and the commands it dispatches to.
The answers of ftplib are inputs; `κ` is the type of non-NULL connections. -/

namespace AutotestClient.FtpTest

variable {κ : Type*}

/-- The ftplib functions the commands call. -/
inductive FtpOp where
  | connect | login | chdir | rmdir | nlst | dir | put | get | delete | size | quit
  | modDate | sysType | site | mkdir | cdUp | pwd | rename | lastResponse
  deriving DecidableEq

/-- A call of ftplib with its arguments and its connection. For `FtpConnect` the
connection is the one it stored. -/
structure Call (κ : Type*) where
  op : FtpOp
  args : List (Option String)
  conn : Option κ
  ok : Bool
  deriving DecidableEq

/-- The static variables, the calls made to ftplib and the texts written to the pipe,
both newest first. -/
structure State (κ : Type*) where
  mode : Char
  loggedIn : ℤ
  conn : Option κ
  calls : List (Call κ)
  replies : List String
  deriving DecidableEq

/-- `par` with `npar ≥ 1`: the command word and the parameters after it. -/
structure Line where
  word : String
  params : List String
  deriving DecidableEq

def Line.npar (l : Line) : ℕ := l.params.length + 1

/-- `par[i + 1]`, NULL beyond the parameters given. -/
def Line.param (l : Line) (i : ℕ) : Option String := l.params[i]?

/-- How ftplib answers while one command is handled: the success of the operation, the
connection a successful `FtpConnect` stores, the last response, and the buffer and size
it fills in. -/
structure Answer (κ : Type*) where
  ok : Bool
  handle : κ
  response : String
  buf : String
  sz : ℤ

def State.writef (s : State κ) (text : String) : State κ :=
  { s with replies := text :: s.replies }

def State.record (s : State κ) (c : Call κ) : State κ :=
  { s with calls := c :: s.calls }

/-- What a command writes after its operation. -/
inductive Reply where
  | plain (text : String)
  | response (text : String)
  | buffer (text : String)
  | size (text : String)

def State.lastResponse (s : State κ) : State κ :=
  s.record ⟨.lastResponse, [], s.conn, true⟩

def State.reply (s : State κ) (a : Answer κ) : Reply → State κ
  | .plain text => s.writef text
  | .response text => s.lastResponse.writef (text ++ "\n" ++ a.response)
  | .buffer text => s.writef (text ++ "\n" ++ a.buf)
  | .size text => s.lastResponse.writef (text ++ "\n" ++ toString a.sz ++ " - " ++ a.response)

def doConnect (l : Line) (a : Answer κ) (s : State κ) : State κ × ℤ :=
  if s.conn.isSome then (s.writef "Ok:FtpConnect already.", 0)
  else if l.npar < 2 then (s.writef "Error:parameter.", -1)
  else if a.ok then
    (({ s with conn := some a.handle }.record
      ⟨.connect, [l.param 0], some a.handle, true⟩).writef "Ok:FtpConnect.", 0)
  else ((s.record ⟨.connect, [l.param 0], none, false⟩).writef "Error:FtpConnect.", -1)

def doLogin (l : Line) (a : Answer κ) (s : State κ) : State κ × ℤ :=
  if s.loggedIn ≠ 0 then (s.writef "Ok:Ftplogin already.", 0)
  else if s.conn.isNone then (s.writef "Error:FtpConnect needed.", -1)
  else if l.npar < 3 then (s.writef "Error:parameter.", -1)
  else
    let s' := s.record ⟨.login, [l.param 0, l.param 1], s.conn, a.ok⟩
    if a.ok then ({ s'.writef "Ok:Ftplogin." with loggedIn := s.loggedIn + 1 }, 0)
    else (s'.reply a (.response "Error:FtpLogin"), -1)

/-- The commands on a logged-in session: the login check, the check of the parameter
count, the operation on `conn` and the reply. -/
def doOperation (op : FtpOp) (minPar : ℕ) (args : Line → State κ → List (Option String))
    (error ok : Reply) (l : Line) (a : Answer κ) (s : State κ) : State κ × ℤ :=
  if s.loggedIn = 0 then (s.writef "Error:FtpLogin needed.", -1)
  else if l.npar < minPar then (s.writef "Error:parameter.", -1)
  else
    let s' := s.record ⟨op, args l s, s.conn, a.ok⟩
    if a.ok then (s'.reply a ok, 0) else (s'.reply a error, -1)

def doChdir : Line → Answer κ → State κ → State κ × ℤ :=
  doOperation .chdir 2 (fun l _ => [l.param 0])
    (.response "Error:FtpChdir") (.plain "Ok:FtpChdir.")

def doRmdir : Line → Answer κ → State κ → State κ × ℤ :=
  doOperation .rmdir 2 (fun l _ => [l.param 0])
    (.response "Error:FtpRmdir") (.plain "Ok:FtpRmdir.")

def doNlist : Line → Answer κ → State κ → State κ × ℤ :=
  doOperation .nlst 2 (fun l _ => [none, l.param 0])
    (.response "Error:FtpNlst") (.plain "Ok:FtpNlst.")

def doFtpdir : Line → Answer κ → State κ → State κ × ℤ :=
  doOperation .dir 2 (fun l _ => [none, l.param 0])
    (.response "Error:FtpDir") (.plain "Ok:FtpDir.")

def doPut : Line → Answer κ → State κ → State κ × ℤ :=
  doOperation .put 3 (fun l s => [l.param 0, l.param 1, some s.mode.toString])
    (.response "Error:FtpPut") (.plain "Ok:FtpPut.")

/-- Only `npar < 2` is checked although two parameters are passed on. -/
def doGet : Line → Answer κ → State κ → State κ × ℤ :=
  doOperation .get 2 (fun l s => [l.param 0, l.param 1, some s.mode.toString])
    (.response "Error:FtpGet") (.plain "Ok:FtpGet.")

def doDelete : Line → Answer κ → State κ → State κ × ℤ :=
  doOperation .delete 2 (fun l _ => [l.param 0])
    (.response "Error:FtpDelete") (.plain "Ok:FtpDelete.")

def doSize : Line → Answer κ → State κ → State κ × ℤ :=
  doOperation .size 2 (fun l s => [l.param 0, some s.mode.toString])
    (.response "Error:FtpSize") (.size "Ok:FtpSize")

def doModdate : Line → Answer κ → State κ → State κ × ℤ :=
  doOperation .modDate 2 (fun l _ => [l.param 0])
    (.response "Error:FtpModDate.") (.buffer "Ok:FtpModDate.")

def doSystype : Line → Answer κ → State κ → State κ × ℤ :=
  doOperation .sysType 0 (fun _ _ => [])
    (.response "Error:FtpSysType.") (.buffer "Ok:FtpSysType.")

def doSite : Line → Answer κ → State κ → State κ × ℤ :=
  doOperation .site 2 (fun l _ => [l.param 0])
    (.response "Error:FtpSite") (.response "Ok:FtpSite.")

def doMkdir : Line → Answer κ → State κ → State κ × ℤ :=
  doOperation .mkdir 2 (fun l _ => [l.param 0])
    (.response "Error:FtpMkdir") (.response "Ok:FtpMkdir")

def doCdup : Line → Answer κ → State κ → State κ × ℤ :=
  doOperation .cdUp 0 (fun _ _ => [])
    (.response "Error:FtpCDUp.") (.response "Ok:FtpCDUp.")

def doPwd : Line → Answer κ → State κ → State κ × ℤ :=
  doOperation .pwd 0 (fun _ _ => []) (.plain "Error:FtpPwd") (.response "Ok:FtpPwd")

def doRename : Line → Answer κ → State κ → State κ × ℤ :=
  doOperation .rename 3 (fun l _ => [l.param 0, l.param 1])
    (.response "Error:FtpRename") (.response "Ok:FtpRename")

def doMode (l : Line) (s : State κ) : State κ × ℤ :=
  match l.param 0 with
  | none => (s.writef "Error:parameter.", -1)
  | some p =>
      if p.toList.head? = some 'a' then ({ s with mode := 'A' }.writef "Ok:mode.", 0)
      else if p.toList.head? = some 'i' then ({ s with mode := 'I' }.writef "Ok:mode.", 0)
      else (s.writef "Error:parameter.", -1)

/-- `logged_in--` whether or not there was a login. -/
def doQuit (s : State κ) : State κ × ℤ :=
  if s.conn.isNone then (s.writef "Error:FtpConnect needed.", -1)
  else
    ({ (s.record ⟨.quit, [], s.conn, true⟩).writef "Ok:FtpQuit." with
      loggedIn := s.loggedIn - 1, conn := none }, 0)

def doAction (l : Line) (s : State κ) : State κ × ℤ :=
  (s.writef ("ok" ++ ":" ++ l.word), 0)

inductive Command where
  | connect | login | chdir | rmdir | nlist | ftpdir | size | mode | get | put | delete
  | quit | moddate | systype | site | mkdir | cdup | pwd | rename | action
  deriving DecidableEq

/-- The words `handlecmd` looks for, in its order. -/
def commandWords : List (String × Command) :=
  [("host", .connect), ("user", .login), ("chdir", .chdir), ("rmdir", .rmdir),
    ("nlist", .nlist), ("ftpdir", .ftpdir), ("size", .size), ("mode", .mode), ("get", .get),
    ("put", .put), ("delete", .delete), ("quit", .quit), ("moddate", .moddate),
    ("systype", .systype), ("site", .site), ("mkdir", .mkdir), ("cdup", .cdup), ("pwd", .pwd),
    ("rename", .rename)]

/-- `strstr(s, word) != NULL`. -/
def strstr (s word : String) : Bool := decide (word.toList <:+: s.toList)

/-- The first word that occurs in `par[0]` decides; without one it is `do_action`. -/
def Line.command (l : Line) : Command :=
  ((commandWords.find? fun c => strstr l.word c.1).map Prod.snd).getD .action

def handlecmd (l : Line) (a : Answer κ) (s : State κ) : State κ × ℤ :=
  match l.command with
  | .connect => doConnect l a s
  | .login => doLogin l a s
  | .chdir => doChdir l a s
  | .rmdir => doRmdir l a s
  | .nlist => doNlist l a s
  | .ftpdir => doFtpdir l a s
  | .size => doSize l a s
  | .mode => doMode l s
  | .get => doGet l a s
  | .put => doPut l a s
  | .delete => doDelete l a s
  | .quit => doQuit s
  | .moddate => doModdate l a s
  | .systype => doSystype l a s
  | .site => doSite l a s
  | .mkdir => doMkdir l a s
  | .cdup => doCdup l a s
  | .pwd => doPwd l a s
  | .rename => doRename l a s
  | .action => doAction l s

/-- The driver before its first command; each step handles one command line. -/
def machine (κ : Type*) : Shared.Machine (State κ) (Line × Answer κ) where
  init := ⟨'I', 0, none, [], []⟩
  step s l := some (handlecmd l.1 l.2 s).1

end AutotestClient.FtpTest
