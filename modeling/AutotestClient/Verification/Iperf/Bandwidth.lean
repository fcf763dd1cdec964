import AutotestClient.Verification.Iperf.Lines
import Mathlib.Algebra.BigOperators.Group.List.Basic

/-! # The bandwidths that are recorded

The runs that were too slow have their place in both lists of results, so the factor for an output
is that of its own run. -/

namespace AutotestClient.Iperf

open Shared

/-! ## Outputs -/

/-- A line without datagrams is ahead of the others in UDP mode. -/
inductive Output : Bool → Type where
  | tcp (lines : List Line) (h : ∀ l ∈ lines, l.datagrams = none) : Output false
  | udp (sender : Line) (h : sender.datagrams = none) (lines : List Line) : Output true

def Output.text {udp : Bool} : Output udp → Text
  | .tcp lines _ => textOf lines
  | .udp sender _ lines => textOf (sender :: lines)

/-- The lines that count. -/
def Output.flows {udp : Bool} : Output udp → List Line
  | .tcp lines _ => lines.filter fun l => l.flow.isSome
  | .udp _ _ lines => lines.filter fun l => l.flow.isSome && l.datagrams.isSome

/-- What a run gives. -/
inductive Answer (udp : Bool) where
  | done (mpstat : Text) (output : Output udp) (t0 t1 : ℚ) (h : t0 ≠ t1)
  | timeout (additionalText : Text) (h : "within".toList <:+: additionalText)

variable {udp : Bool}

def Answer.outcome : Answer udp → Outcome
  | .done mpstat output t0 t1 _ => .done ⟨mpstat, output.text⟩ t0 t1
  | .timeout additionalText _ => .cmdError additionalText

/-- The key of the direction of a line. -/
def Line.bandwidthKey (ip : Text) (l : Line) : Key :=
  if l.localIp.text = ip ∧ l.localPort.text = serverPort then .bandwidthS2C else .bandwidthC2S

def Line.bandwidthValue (l : Line) : ℚ := digitsValue 10 l.bandwidth.text

/-- The scaled sum of the lines of a direction, if there are any. -/
def Answer.bandwidth (ip : Text) (testTime : ℕ) (key : Key) : Answer udp → Option ℚ
  | .done _ output t0 t1 _ =>
      let flows := output.flows.filter fun l => l.bandwidthKey ip = key
      if flows = [] then none
      else some ((flows.map Line.bandwidthValue).sum * (testTime / (t1 - t0)))
  | .timeout _ _ => none

/-- The key-values of an iteration are those of its run. -/
structure Accounts (t : Test) (run : ℕ × Answer t.udp) (iteration : Iteration) : Prop where
  streams : iteration.streamCount = run.1
  s2c : iteration.keyval.lookup .bandwidthS2C = run.2.bandwidth t.ip t.testTime .bandwidthS2C
  c2s : iteration.keyval.lookup .bandwidthC2S = run.2.bandwidth t.ip t.testTime .bandwidthC2S

/-! ## Lists for the keys -/

def IsBandwidth (key : Key) : Prop := key = .bandwidthS2C ∨ key = .bandwidthC2S

/-- A match adds the bandwidth of its line, for the direction of the line. -/
def Adds (ip : Text) (l : Line) (runs runs' : Runs) : Prop :=
  ∀ key, IsBandwidth key → runs' key =
    runs key ++ if l.bandwidthKey ip = key then [l.bandwidthValue] else []

theorem adds_append (ip : Text) (l : Line) (runs : Runs) :
    Adds ip l runs (runs.append (l.bandwidthKey ip) l.bandwidthValue) := by
  intro key _
  rw [Runs.append]
  split_ifs with hkey
  · rw [← hkey, Function.update_self]
  · rw [Function.update_of_ne (Ne.symm hkey), List.append_nil]

theorem Adds.append {ip : Text} {l : Line} {runs runs' : Runs} (h : Adds ip l runs runs')
    {key : Key} (hkey : ¬IsBandwidth key) (value : ℚ) :
    Adds ip l runs (runs'.append key value) := by
  intro k hk
  have hne : k ≠ key := by
    rintro rfl
    exact hkey hk
  rw [Runs.append, Function.update_of_ne hne, h k hk]

/-- A match whose groups are the fields of a line. -/
theorem addMatch_adds {keys : List Field} {groups : List Text} {l : Line}
    (hip : (keys.zip groups).lookup .localIp = some l.localIp.text)
    (hport : (keys.zip groups).lookup .localPort = some l.localPort.text)
    (hbandwidth : (keys.zip groups).lookup .bandwidth = some l.bandwidth.text) (ip : Text)
    (runs : Runs) : ∃ runs', addMatch ip keys runs groups = .ok runs' ∧ Adds ip l runs runs' := by
  have hadds := adds_append ip l runs
  have hkey : (if l.localIp.text = ip ∧ l.localPort.text = serverPort then
      (Key.bandwidthS2C, Key.jitterS2C) else (.bandwidthC2S, .jitterC2S)).1 =
        l.bandwidthKey ip := by
    rw [Line.bandwidthKey]
    split_ifs <;> rfl
  have hjitter : ¬IsBandwidth (if l.localIp.text = ip ∧ l.localPort.text = serverPort then
      (Key.bandwidthS2C, Key.jitterS2C) else (.bandwidthC2S, .jitterC2S)).2 := by
    split_ifs <;> simp [IsBandwidth]
  simp only [addMatch, getField, hip, hport, hbandwidth, bind, Except.bind, hkey]
  cases (keys.zip groups).lookup .jitter |>.bind float? with
  | none => exact ⟨_, rfl, hadds⟩
  | some jitter => exact ⟨_, rfl, hadds.append hjitter jitter⟩

theorem addMatch_tcpMatch {l : Line} {groups : List Text} (h : l.tcpMatch = some groups)
    (ip : Text) (runs : Runs) :
    ∃ runs', addMatch ip tcpKeys runs groups = .ok runs' ∧ Adds ip l runs runs' := by
  obtain ⟨flow, -, rfl⟩ := Option.map_eq_some_iff.mp h
  exact addMatch_adds rfl rfl rfl ip runs

theorem addMatch_udpMatch {l : Line} {groups : List Text} (h : l.udpMatch = some groups)
    (ip : Text) (runs : Runs) :
    ∃ runs', addMatch ip udpKeys runs groups = .ok runs' ∧ Adds ip l runs runs' := by
  obtain ⟨flow, -, hd⟩ := Option.bind_eq_some_iff.mp h
  obtain ⟨d, -, rfl⟩ := Option.map_eq_some_iff.mp hd
  exact addMatch_adds rfl rfl rfl ip runs

/-- The lists after the matches of some lines. -/
theorem foldlM_addMatch {keys : List Field} {found : Line → Option (List Text)} {ip : Text}
    (hstep : ∀ l groups runs, found l = some groups →
      ∃ runs', addMatch ip keys runs groups = .ok runs' ∧ Adds ip l runs runs')
    (lines : List Line) (runs : Runs) :
    ∃ runs', (lines.filterMap found).foldlM (addMatch ip keys) runs = .ok runs' ∧
      ∀ key, IsBandwidth key → runs' key = runs key ++
        ((lines.filter fun l => (found l).isSome).filter fun l => l.bandwidthKey ip = key).map
          Line.bandwidthValue := by
  induction lines generalizing runs with
  | nil => exact ⟨runs, rfl, fun key _ => (List.append_nil _).symm⟩
  | cons l lines ih =>
      cases hfound : found l with
      | none =>
          obtain ⟨runs', hfold, hruns⟩ := ih runs
          refine ⟨runs', ?_, ?_⟩
          · rwa [List.filterMap_cons_none hfound]
          · simpa [hfound] using hruns
      | some groups =>
          obtain ⟨next, hadd, hadds⟩ := hstep l groups runs hfound
          obtain ⟨runs', hfold, hruns⟩ := ih next
          refine ⟨runs', ?_, fun key hkey => ?_⟩
          · rw [List.filterMap_cons_some hfound, List.foldlM_cons, hadd]
            exact hfold
          · rw [hruns key hkey, hadds key hkey, List.append_assoc]
            by_cases hdirection : l.bandwidthKey ip = key <;> simp [hfound, hdirection]

theorem dropFirstLine_textOf (sender : Line) (lines : List Line) :
    dropFirstLine (textOf (sender :: lines)) = .ok (textOf lines) := by
  have hcons : textOf (sender :: lines) = sender.text ++ '\n' :: textOf lines := by simp [textOf]
  rw [dropFirstLine, hcons, (takeWhile_ne_append sender.newline_not_mem).2]

/-- The lists that an output gives. -/
theorem exists_runs (output : Output udp) (ip : Text) :
    ∃ stdout runs, searched udp output.text = .ok stdout ∧
      (findall (if udp then udpPattern else tcpPattern) stdout).foldlM
        (addMatch ip (if udp then udpKeys else tcpKeys)) (fun _ => []) = .ok runs ∧
      ∀ key, IsBandwidth key → runs key =
        (output.flows.filter fun l => l.bandwidthKey ip = key).map Line.bandwidthValue := by
  cases output with
  | tcp lines h =>
      obtain ⟨runs, hfold, hruns⟩ := foldlM_addMatch
        (fun _ _ runs hfound => addMatch_tcpMatch hfound ip runs) lines fun _ => []
      have hsome (l : Line) : l.tcpMatch.isSome = l.flow.isSome := Option.isSome_map
      refine ⟨textOf lines, runs, rfl, ?_, fun key hkey => ?_⟩
      · simpa only [Bool.false_eq_true, if_false, findall_tcp h] using hfold
      · simp only [hruns key hkey, hsome, List.nil_append]
        rfl
  | udp sender h lines =>
      obtain ⟨runs, hfold, hruns⟩ := foldlM_addMatch
        (fun _ _ runs hfound => addMatch_udpMatch hfound ip runs) lines fun _ => []
      have hsome (l : Line) : l.udpMatch.isSome = (l.flow.isSome && l.datagrams.isSome) := by
        cases hflow : l.flow <;> simp [Line.udpMatch, hflow]
      refine ⟨textOf lines, runs, dropFirstLine_textOf sender lines, ?_, fun key hkey => ?_⟩
      · simpa only [if_true, findall_udp] using hfold
      · simp only [hruns key hkey, hsome, List.nil_append]
        rfl

/-! ## Sums and scaling -/

theorem lookup_foldl_insert (keys : List Key) (value : Key → ℚ) (keyval : Keyval) (key : Key) :
    (keys.foldl (fun keyval key => keyval.insert key (value key)) keyval).lookup key =
      if key ∈ keys then some (value key) else keyval.lookup key := by
  induction keys generalizing keyval with
  | nil => simp
  | cons k keys ih =>
      rw [List.foldl_cons, ih]
      by_cases hmem : key ∈ keys
      · simp [hmem]
      · by_cases hk : key = k
        · subst hk
          simp [hmem]
        · simp [hmem, hk]

theorem lookup_addSums {runs : Runs} {keyval : Keyval} {key : Key} (hkey : key ∈ runKeys) :
    (addSums runs keyval).lookup key =
      if runs key = [] then keyval.lookup key else some (runs key).sum := by
  rw [addSums, lookup_foldl_insert]
  simp [hkey, ite_not]

theorem lookup_addSums_of_not_mem {runs : Runs} {keyval : Keyval} {key : Key}
    (hkey : key ∉ runKeys) : (addSums runs keyval).lookup key = keyval.lookup key := by
  rw [addSums, lookup_foldl_insert, if_neg]
  exact fun hmem => hkey (List.mem_of_mem_filter hmem)

/-- One bandwidth is scaled if it has values, and the other keys stay. -/
theorem scaleKey_eq {runs : Runs} (acc : Keyval × ℚ) (key : Key) (scale : ℚ)
    (h : runs key ≠ [] → acc.1.lookup key = some (runs key).sum) :
    ∃ acc', scaleKey runs scale acc key = .ok acc' ∧
      acc'.1.lookup key =
        (if runs key = [] then acc.1.lookup key else some ((runs key).sum * scale)) ∧
      ∀ k, k ≠ key → acc'.1.lookup k = acc.1.lookup k := by
  rw [scaleKey]
  by_cases hruns : runs key = []
  · refine ⟨acc, ?_, ?_, fun _ _ => rfl⟩
    · rw [if_neg (not_not.mpr hruns)]
    · rw [if_pos hruns]
  · rw [if_pos hruns, getItem, h hruns]
    refine ⟨_, rfl, ?_, fun k hk => ?_⟩
    · rw [if_neg hruns]
      exact AList.lookup_insert _
    · exact AList.lookup_insert_ne hk

/-- Both bandwidths are scaled, one after the other. -/
theorem foldlM_scaleKey {runs : Runs} {keyval : Keyval} (scale : ℚ)
    (hsum : ∀ key, IsBandwidth key →
      keyval.lookup key = if runs key = [] then none else some (runs key).sum) :
    ∃ acc, [Key.bandwidthS2C, .bandwidthC2S].foldlM (scaleKey runs scale) (keyval, 0) = .ok acc ∧
      (∀ key, IsBandwidth key → acc.1.lookup key =
        if runs key = [] then none else some ((runs key).sum * scale)) ∧
      ∀ key, ¬IsBandwidth key → acc.1.lookup key = keyval.lookup key := by
  obtain ⟨acc, hs2c, hacc, hother⟩ := scaleKey_eq (keyval, 0) .bandwidthS2C scale
    fun h => by rw [hsum _ (.inl rfl), if_neg h]
  obtain ⟨acc', hc2s, hacc', hother'⟩ := scaleKey_eq acc .bandwidthC2S scale
    fun h => by rw [hother _ (by decide), hsum _ (.inr rfl), if_neg h]
  refine ⟨acc', ?_, fun key hkey => ?_, fun key hkey => ?_⟩
  · simp only [List.foldlM_cons, List.foldlM_nil, hs2c, hc2s, bind, Except.bind, pure, Except.pure]
  · rcases hkey with rfl | rfl
    · rw [hother' _ (by decide), hacc, hsum _ (.inl rfl)]
      split_ifs <;> rfl
    · rw [hacc', hother _ (by decide), hsum _ (.inr rfl)]
      split_ifs <;> rfl
  · rw [IsBandwidth, not_or] at hkey
    rw [hother' _ hkey.2, hother _ hkey.1]

/-- The bandwidths that are recorded for an output. -/
theorem outKeyval_output (processMpstat : Text → ℕ → CpuStats) (t : Test) (mpstat : Text)
    (output : Output t.udp) {time : ℚ} (htime : time ≠ 0) :
    ∃ keyval, outKeyval processMpstat t ⟨mpstat, output.text⟩ (.ok time) = .ok keyval ∧
      ∀ key, IsBandwidth key → keyval.lookup key =
        if (output.flows.filter fun l => l.bandwidthKey t.ip = key) = [] then none
        else some (((output.flows.filter fun l => l.bandwidthKey t.ip = key).map
          Line.bandwidthValue).sum * (t.testTime / time)) := by
  obtain ⟨stdout, runs, hstdout, hruns, hvalues⟩ := exists_runs output t.ip
  obtain ⟨start, hstart⟩ : ∃ keyval, keyval = addSums runs (cpuKeyval (processMpstat mpstat 5)) :=
    ⟨_, rfl⟩
  have hsum (key : Key) (hkey : IsBandwidth key) : start.lookup key =
      if runs key = [] then none else some (runs key).sum := by
    rw [hstart, lookup_addSums (by rcases hkey with rfl | rfl <;> decide)]
    rcases hkey with rfl | rfl <;> rfl
  have hcpu : start.lookup .cpuC = some (100 - (processMpstat mpstat 5).idle) := by
    rw [hstart, lookup_addSums_of_not_mem (by decide)]
    rfl
  obtain ⟨acc, hscale, hscaled, hother⟩ := foldlM_scaleKey (t.testTime / time) hsum
  have hidle : getItem acc.1 .cpuC = .ok (100 - (processMpstat mpstat 5).idle) := by
    rw [getItem, hother _ (by simp [IsBandwidth]), hcpu]
  have hlookup (efficiency : ℚ) (key : Key) (hkey : IsBandwidth key) :
      (acc.1.insert .efficiencyC efficiency).lookup key =
        if (output.flows.filter fun l => l.bandwidthKey t.ip = key) = [] then none
        else some (((output.flows.filter fun l => l.bandwidthKey t.ip = key).map
          Line.bandwidthValue).sum * (t.testTime / time)) := by
    rw [AList.lookup_insert_ne (by rcases hkey with rfl | rfl <;> decide), hscaled key hkey,
      hvalues key hkey]
    simp only [List.map_eq_nil_iff]
  simp only [outKeyval, hstdout, hruns, ← hstart, divide, if_neg htime, hscale, bind, Except.bind,
    hidle]
  by_cases hzero : 100 - (processMpstat mpstat 5).idle = 0
  · rw [if_neg (not_not.mpr hzero)]
    exact ⟨_, rfl, hlookup acc.2⟩
  · rw [if_pos hzero, if_neg hzero]
    exact ⟨_, rfl, hlookup _⟩

/-! ## Runs -/

def Answer.result : Answer udp → Option Out
  | .done mpstat output _ _ _ => some ⟨mpstat, output.text⟩
  | .timeout _ _ => none

/-- The time that is kept, 1 for a run that was too slow. -/
def Answer.time : Answer udp → ℚ
  | .done _ _ t0 t1 _ => t1 - t0
  | .timeout _ _ => 1

theorem client_answer {runParallel : List Text → ℕ → Outcome} {t : Test} {numStreams : ℕ}
    {a : Answer t.udp} (h : runParallel (t.cmds numStreams) (t.testTime + 60) = a.outcome)
    (s : State) :
    client runParallel t numStreams s =
      .ok ⟨s.results ++ [a.result], s.actualTimes ++ [a.time]⟩ := by
  rw [client, h]
  cases a with
  | done mpstat output t0 t1 ht => rfl
  | timeout additionalText hwithin => exact if_pos hwithin

/-- Each run adds to both lists. -/
theorem clients_answers {runParallel : ℕ → List Text → ℕ → Outcome} {t : Test}
    {runs : List (ℕ × Answer t.udp)} {i : ℕ}
    (h : ∀ k run, runs[k]? = some run →
      runParallel (i + k) (t.cmds run.1) (t.testTime + 60) = run.2.outcome) (s : State) :
    clients runParallel t i (runs.map Prod.fst) s =
      .ok ⟨s.results ++ runs.map fun run => run.2.result,
        s.actualTimes ++ runs.map fun run => run.2.time⟩ := by
  induction runs generalizing i s with
  | nil => simp [clients]
  | cons run runs ih =>
      have hrest : ∀ k run', runs[k]? = some run' →
          runParallel (i + 1 + k) (t.cmds run'.1) (t.testTime + 60) = run'.2.outcome := by
        intro k run' hk
        rw [Nat.add_assoc, Nat.add_comm 1 k]
        exact h (k + 1) run' hk
      have hclient : client (runParallel i) t run.1 s = _ := client_answer (h 0 run rfl) s
      rw [List.map_cons, clients]
      show (client (runParallel i) t run.1 s >>= _) = _
      rw [hclient]
      refine (ih hrest _).trans ?_
      simp

theorem flows_of_text_nil {output : Output udp} (h : output.text = []) : output.flows = [] := by
  cases output with
  | tcp lines hlines =>
      cases lines with
      | nil => rfl
      | cons l lines => simp [Output.text, textOf] at h
  | udp sender hsender lines => simp [Output.text, textOf] at h

/-- The key-values of an iteration, from its own entries of the two lists. -/
theorem iterationKeyval_answer (processMpstat : Text → ℕ → CpuStats) {t : Test} {s : State} {i : ℕ}
    {a : Answer t.udp} (hresult : s.results[i]? = some a.result)
    (htime : s.actualTimes[i]? = some a.time) :
    ∃ keyval, iterationKeyval processMpstat t s i = .ok keyval ∧
      ∀ key, IsBandwidth key → keyval.lookup key = a.bandwidth t.ip t.testTime key := by
  simp only [iterationKeyval, index, hresult, htime, bind, Except.bind]
  cases a with
  | timeout additionalText hwithin => exact ⟨∅, rfl, fun key _ => AList.lookup_empty key⟩
  | done mpstat output t0 t1 ht =>
      simp only [Answer.result]
      by_cases htext : output.text = []
      · refine ⟨∅, if_pos htext, fun key _ => ?_⟩
        rw [Answer.bandwidth, flows_of_text_nil htext]
        exact AList.lookup_empty key
      · rw [if_neg htext]
        exact outKeyval_output processMpstat t mpstat output (sub_ne_zero.mpr ht.symm)

theorem writeIterations_answers (processMpstat : Text → ℕ → CpuStats) {t : Test} {s : State}
    {runs : List (ℕ × Answer t.udp)} {i : ℕ}
    (hresults : s.results.drop i = runs.map fun run => run.2.result)
    (htimes : s.actualTimes.drop i = runs.map fun run => run.2.time) :
    ∃ written, writeIterations processMpstat t s i (runs.map Prod.fst) = (written, none) ∧
      List.Forall₂ (Accounts t) runs written := by
  induction runs generalizing i with
  | nil => exact ⟨[], rfl, .nil⟩
  | cons run runs ih =>
      have hresult : s.results[i]? = some run.2.result := by
        rw [← Nat.add_zero i, ← List.getElem?_drop, hresults]
        rfl
      have htime : s.actualTimes[i]? = some run.2.time := by
        rw [← Nat.add_zero i, ← List.getElem?_drop, htimes]
        rfl
      obtain ⟨keyval, hkeyval, hlookup⟩ := iterationKeyval_answer processMpstat hresult htime
      obtain ⟨written, hwritten, haccounts⟩ := ih (i := i + 1)
        (by rw [← List.drop_drop, hresults]; rfl) (by rw [← List.drop_drop, htimes]; rfl)
      refine ⟨⟨run.1, keyval⟩ :: written, ?_, .cons ?_ haccounts⟩
      · rw [List.map_cons, writeIterations, hkeyval]
        simp only [hwritten]
      · exact ⟨rfl, hlookup _ (.inl rfl), hlookup _ (.inr rfl)⟩

/-- Whatever the commands print and however many runs are too slow, an iteration is written for each
run, with the bandwidths of its own output. -/
theorem postprocess_bandwidth (processMpstat : Text → ℕ → CpuStats) (t : Test)
    (runs : List (ℕ × Answer t.udp)) (runParallel : ℕ → List Text → ℕ → Outcome)
    (h : ∀ i run, runs[i]? = some run →
      runParallel i (t.cmds run.1) (t.testTime + 60) = run.2.outcome) :
    ∃ s written, runOnce runParallel t (runs.map Prod.fst) = .ok s ∧
      postprocess processMpstat t (runs.map Prod.fst) s = (written, none) ∧
      List.Forall₂ (Accounts t) runs written := by
  have hrun := clients_answers (i := 0) (fun k run hk => by rw [Nat.zero_add]; exact h k run hk)
    ⟨[], []⟩
  obtain ⟨written, hwritten, haccounts⟩ := writeIterations_answers processMpstat (i := 0)
    (s := ⟨[] ++ runs.map fun run => run.2.result, [] ++ runs.map fun run => run.2.time⟩) rfl rfl
  refine ⟨_, written, hrun, ?_, haccounts⟩
  rw [postprocess, if_neg (by simp), hwritten]

/-! ## Two runs -/

def Word.ofAll {p : Char → Bool} (text : Text) (hne : text ≠ []) (h : text.all p) : Word p :=
  ⟨text, hne, List.all_eq_true.mp h⟩

/-- A line to the server, one from it, and one for both flows of a direction. -/
def bidirectionalLines : List Line :=
  let line (localPort remotePort : Digits) (flow : Option Digits) (bandwidth : Digits) : Line :=
    ⟨.ofAll "20080806120605".toList (by decide) rfl, .ofAll "10.75.222.14".toList (by decide) rfl,
      localPort, .ofAll "10.75.222.13".toList (by decide) rfl, remotePort, flow,
      .ofAll "0.0".toList (by decide) rfl, .ofAll "10.0".toList (by decide) rfl,
      .ofAll "105054208".toList (by decide) rfl, bandwidth, none⟩
  [line (.ofAll "59744".toList (by decide) rfl) (.ofAll "5001".toList (by decide) rfl)
      (some (.ofAll "13".toList (by decide) rfl)) (.ofAll "84029467".toList (by decide) rfl),
    line (.ofAll "5001".toList (by decide) rfl) (.ofAll "46112".toList (by decide) rfl)
      (some (.ofAll "12".toList (by decide) rfl)) (.ofAll "940172245".toList (by decide) rfl),
    line (.ofAll "5001".toList (by decide) rfl) (.ofAll "0".toList (by decide) rfl) none
      (.ofAll "940172245".toList (by decide) rfl)]

def bidirectionalTest : Test where
  serverIp := "10.75.222.13".toList
  ip := "10.75.222.14".toList
  clientPath := "/iperf/src/src/iperf -y c -c".toList
  udp := false
  bidirectional := true
  testTime := 10

/-- A run that is too slow, and one of twice the time. -/
def bidirectionalRuns : List (ℕ × Answer bidirectionalTest.udp) :=
  [(8, .timeout "Command did not complete within 70 seconds".toList (by decide)),
    (1, .done [] (.tcp bidirectionalLines (by simp [bidirectionalLines])) 0 20 (by decide))]

theorem postprocess_bandwidth_bidirectional :
    ∃ s written,
      runOnce (fun i _ _ => (bidirectionalRuns[i]?.map fun run => run.2.outcome).getD
        (.cmdError [])) bidirectionalTest [8, 1] = .ok s ∧
      postprocess (fun _ _ => ⟨60, 20, 10, 10, 1000⟩) bidirectionalTest [8, 1] s =
        (written, none) ∧
      List.Forall₂ (Accounts bidirectionalTest) bidirectionalRuns written :=
  postprocess_bandwidth _ bidirectionalTest bidirectionalRuns _ fun i run hi => by simp [hi]

end AutotestClient.Iperf
