import AutotestClient.Model.Harness.Verdict

/-! # Temporary accounts of the linux-tools harness

`tc_add_user_or_break`, `tc_del_user_or_break` and the two group functions. The account
commands answer with a status of their own choice, except that no name is added twice or
removed when it is not there. -/

namespace AutotestClient.Harness

/-- Status and output of an external command. -/
structure Answer where
  rc : ℕ
  output : String
  rc_lt : rc < 256 := by decide

/-- A command that succeeds and prints nothing. -/
def Answer.success : Answer := ⟨0, "", by decide⟩

/-- Which command is installed: the first one tried (`useradd`, `userdel`, `groupadd`,
`groupdel`), the second one (`adduser`, `deluser`, `addgroup`, `delgroup`), or none. -/
inductive Tool where
  | first | second | missing
  deriving DecidableEq

/-- `useradd` and its siblings. A failing one leaves the database as it is. -/
def Registry.create (r : Registry) (rc : ℕ) (name : String) : Registry × ℕ :=
  if rc ≠ 0 then (r, rc)
  else if name ∈ r.database then (r, 9)
  else ({ r with database := r.database ++ [name] }, 0)

/-- `userdel` and its siblings. -/
def Registry.remove (r : Registry) (rc : ℕ) (name : String) : Registry × ℕ :=
  if rc ≠ 0 then (r, rc)
  else if name ∈ r.database then ({ r with database := r.database.filter (· ≠ name) }, 0)
  else (r, 6)

/-- `u="u$$00000"`, of which six characters are kept, and two digits of the counter. -/
def generatedName (letter : Char) (pid : ℕ) (ndx : ℤ) : String :=
  let nn := ("00" ++ toString ndx).toList
  String.ofList
    ((letter :: (toString pid).toList ++ "00000".toList).take 6 ++ nn.drop (nn.length - 2))

/-! ## Waiting for a file -/

/-- The loop of `tc_wait_for_file` with `n` polls left, the first `misses` of which do not
find the file. -/
def pollFile (file : String) : ℕ → ℕ → State → State × ℕ
  | 0, _, s => (s, 1)
  | _ + 1, 0, s => (s, 0)
  | 1, _ + 1, s => (s, 1)
  | n + 2, misses + 1, s =>
      let m := "Waiting for file \"" ++ file ++ "\" to appear (" ++ toString (n + 1) ++ ")"
      pollFile file (n + 1) misses (tcInfo [m] s)

/-- `tc_wait_for_file $file`, which exits without a file name. -/
def tcWaitForFile (file : String) (misses : ℕ) (s : State) : State × Option ℕ :=
  let (s, rc) := tcBreakIfBadRc (if file ≠ "" then 0 else 1)
    ["tc_wait_for_file: Internal script error: called w/o file name."] s
  if rc ≠ 0 then (s, none)
  else
    let (s, rc) := pollFile file 10 misses s
    (s, some rc)

/-! ## Users -/

/-- What `tc_add_user_or_break` meets: `/etc/passwd`, the commands and their answers, the
home directory of the new user's line and how often it was polled in vain. -/
structure AddUser where
  passwdExists : Bool
  tool : Tool
  add : Answer
  chpasswd : Answer
  home : String
  misses : ℕ

def tcExistOrBreak (missing : List String) (s : State) : State × ℕ :=
  tcBreakIfBadRc (if missing = [] then 0 else 1)
    ["required files(s) not found: \"" ++ " ".intercalate missing ++ "\""] s

/-- `tc_executes useradd || tc_executes adduser &>/dev/null` -/
def tcExecutesUseradd (tool : Tool) (s : State) : State × ℕ :=
  match tool with
  | .first => (s, 0)
  | .second => (tcInfo ["missing command(s): \"useradd\""] s, 0)
  | .missing => (tcInfo ["missing command(s): \"useradd\""] s, 1)

/-- The name to create, generated if none or `auto` is given. -/
def chooseUser (name : String) (s : State) : State × Except ℕ String :=
  if name = "" ∨ name = "auto" then
    let ndx := s.users.ndx + 1
    let s := { s with users := { s.users with ndx := ndx } }
    let (s, rc) := tcBreakIfBadRc (if ndx ≤ 99 then 0 else 1)
      ["too many temp users: " ++ toString ndx] s
    (s, if rc ≠ 0 then .error rc else .ok (generatedName 'u' s.pid ndx))
  else (s, .ok name)

def State.appendStdout (s : State) (text : String) : State :=
  { s with console := { s.console with stdout := s.console.stdout ++ text } }

/-- `useradd` or `adduser`, whichever `command` is, with the check of its status. -/
def createUser (a : Answer) (u command : String) (s : State) : State × ℕ :=
  let (users, rc) := s.users.create a.rc u
  tcBreakIfBadRc rc ["failed to add temp user " ++ u ++ " with " ++ command]
    (({ s with users := users }).appendStdout a.output)

def runUseradd (e : AddUser) (u : String) (s : State) : State × ℕ :=
  match e.tool with
  | .first => createUser e.add u "useradd" s
  | .second =>
      let (s, rc) := createUser e.add u "adduser" s
      if rc ≠ 0 then (s, rc)
      else ((tcBreakIfBad e.chpasswd.rc ["failed to set password"]
        (s.appendStdout e.chpasswd.output)).1, 0)
  -- not reached: without a command the function has returned before
  | .missing =>
      tcBreakIfBadRc 1 ["no mechanism available to add users. Tried useradd and adduser"] s

/-- The user is remembered and handed back to the testcase. -/
def listUser (home u : String) (s : State) : State :=
  let s := { s with users := { s.users with listed := s.users.listed ++ [u] } }
  let s := tcInfo ["created temp user " ++ u ++ "."] s
  { s with
    users := { s.users with temp := some u }, tempPasswd := some "password"
    tempHome := some home }

def awaitHome (home : String) (misses : ℕ) (s : State) : State × Option ℕ :=
  match tcWaitForFile home misses s with
  | (s, none) => (s, none)
  | (s, some rc) =>
      let (s, rc) := tcBreakIfBadRc rc [home ++ " not created"] s
      (s, some rc)

/-- `tc_add_user_or_break name`. The result is the status, or `none` if the shell exits. -/
def tcAddUserOrBreak (e : AddUser) (name : String) (s : State) : State × Option ℕ :=
  let (s, rc) := tcExistOrBreak (if e.passwdExists then [] else ["/etc/passwd"]) s
  if rc ≠ 0 then (s, some rc)
  else
    let (s, rc) := tcExecutesUseradd e.tool s
    let (s, rc) := tcBreakIfBad rc ["no support for creating users"] s
    if rc ≠ 0 then (s, some rc)
    else
      let s :=
        { s with users := { s.users with temp := none }, tempPasswd := none, tempHome := none }
      match chooseUser name s with
      | (s, .error rc) => (s, some rc)
      | (s, .ok u) =>
          let (s, rc) := runUseradd e u s
          if rc ≠ 0 then (s, some rc) else awaitHome e.home e.misses (listUser e.home u s)

/-- `userdel` or `deluser`, whichever `command` is, with the check of its status. -/
def deleteUser (a : Answer) (u command : String) (s : State) : State × ℕ :=
  let (users, rc) := s.users.remove a.rc u
  tcBreakIfBadRc rc ["failed to remove temp user " ++ u ++ " with " ++ command]
    { s with users := users, console := { s.console with stdout := a.output } }

/-- One removal of `tc_del_user_or_break`, up to its `|| continue`. -/
def removeUser (tool : Tool) (a : Answer) (u : String) (s : State) : State × ℕ :=
  match tool with
  | .first => deleteUser a u "userdel" s
  | .second =>
      let (s, rc) := deleteUser a u "deluser" s
      -- `rm -rf /home/$u &>$stdout`
      if rc ≠ 0 then (s, rc) else ({ s with console := { s.console with stdout := "" } }, 0)
  | .missing =>
      tcBreakIfBadRc 1 ["no mechanism available to delete users. Tried userdel and deluser"] s

/-- The loop over `TC_TEMP_USERS`. `answers` are those of the removals to come. -/
def delUsers (tool : Tool) (name : String) :
    List String → (ℕ → Answer) → List String → State → List String × State
  | [], _, remaining, s => (remaining, s)
  | u :: us, answers, remaining, s =>
      if name ≠ "" ∧ name ≠ u then delUsers tool name us answers (remaining ++ [u]) s
      else
        let (s, rc) := removeUser tool (answers 0) u s
        let s := if rc ≠ 0 then s else tcInfo ["removed temp user " ++ u ++ "."] s
        delUsers tool name us (fun i => answers (i + 1)) remaining s

/-- `tc_del_user_or_break name`, without a name for all temporary users. -/
def tcDelUserOrBreak (tool : Tool) (answers : ℕ → Answer) (name : String) (s : State) : State :=
  let (remaining, s) := delUsers tool name s.users.listed answers [] s
  { s with users := { s.users with listed := remaining } }

/-! ## Groups -/

/-- The name to create, generated if none is given. -/
def chooseGroup (name : String) (s : State) : State × Except ℕ String :=
  if name ≠ "" then (s, .ok name)
  else
    let ndx := s.groups.ndx + 1
    let s := { s with groups := { s.groups with ndx := ndx } }
    let (s, rc) := tcBreakIfBadRc (if ndx ≤ 99 then 0 else 1)
      ["too many temp groups: " ++ toString ndx] s
    (s, if rc ≠ 0 then .error rc else .ok (generatedName 'g' s.pid ndx))

/-- `$GRPADD $g` with the check of its status. -/
def createGroup (a : Answer) (g : String) (s : State) : State × ℕ :=
  let (groups, rc) := s.groups.create a.rc g
  tcBreakIfBadRc rc ["failed to add temp group " ++ g]
    (({ s with groups := groups }).echo (.text a.output))

/-- The group is remembered and handed back to the testcase. -/
def listGroup (g : String) (s : State) : State :=
  let s := { s with groups := { s.groups with listed := s.groups.listed ++ [g] } }
  let s := tcInfo ["created temp group " ++ g ++ "."] s
  { s with groups := { s.groups with temp := some g } }

def tcAddGroupOrBreak (tool : Tool) (a : Answer) (name : String) (s : State) : State × ℕ :=
  let s := { s with groups := { s.groups with temp := none } }
  let (s, rc) := tcBreakIfBadRc (if tool ≠ .missing then 0 else 1)
    ["No mechanism to add group. Tried groupadd and addgroup."] s
  if rc ≠ 0 then (s, rc)
  else
    match chooseGroup name s with
    | (s, .error rc) => (s, rc)
    | (s, .ok g) =>
        let (s, rc) := createGroup a g s
        if rc ≠ 0 then (s, rc) else (listGroup g s, 0)

/-- One removal of `tc_del_group_or_break`, up to its `|| return`. -/
def removeGroup (a : Answer) (g : String) (s : State) : State × ℕ :=
  let (groups, rc) := s.groups.remove a.rc g
  tcBreakIfBadRc rc ["failed to remove temp group " ++ g]
    (({ s with groups := groups }).echo (.text a.output))

/-- The loop over `TC_TEMP_GROUPS`. A failed removal returns from the function, so that
there are no remaining names to store. -/
def delGroups (name : String) :
    List String → (ℕ → Answer) → List String → State → State × Except ℕ (List String)
  | [], _, remaining, s => (s, .ok remaining)
  | g :: gs, answers, remaining, s =>
      if name ≠ "" ∧ name ≠ g then delGroups name gs answers (remaining ++ [g]) s
      else
        let (s, rc) := removeGroup (answers 0) g s
        if rc ≠ 0 then (s, .error rc)
        else
          delGroups name gs (fun i => answers (i + 1)) remaining
            (tcInfo ["removed temp group " ++ g ++ "."] s)

/-- The end of the function: the remaining names are stored unless the loop returned. -/
def storeGroups : State × Except ℕ (List String) → State × ℕ
  | (s, .error rc) => (s, rc)
  | (s, .ok remaining) => ({ s with groups := { s.groups with listed := remaining } }, 0)

/-- `tc_del_group_or_break name`, without a name for all temporary groups. -/
def tcDelGroupOrBreak (tool : Tool) (answers : ℕ → Answer) (name : String) (s : State) :
    State × ℕ :=
  let (s, rc) := tcBreakIfBadRc (if tool ≠ .missing then 0 else 1)
    ["No mechanism to delete group. Tried groupdel and delgroup."] s
  if rc ≠ 0 then (s, rc) else storeGroups (delGroups name s.groups.listed answers [] s)

end AutotestClient.Harness
