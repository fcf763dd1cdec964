import AutotestClient.Model.KernelInstall

/-! # The packages that are handed over

Every dependency has a blank in front of it, and a package of the kernel has none. So the kernel is
handed over with all the packages only if there are no sub-packages, or there is just one and no
dependency. Without `sub_pkgs` the loop fails, and the name of a sub-package may also be found in
the file name of the kernel itself. -/

namespace AutotestClient.KernelInstall

open Shared (isSpace osPathJoin words words_append_cons words_of_forall words_flatMap_cons
  not_of_mem_words flatten_words perm_of_length_flatten)

/-- A client with one rpm for every package that is asked for, in any order. A file name starts with
the name of its package. -/
structure KojiClient where
  rpm : KojiPkgSpec → Text → Text
  getPkgRpmFileNames : KojiPkgSpec → List Text
  names_perm : ∀ spec, (getPkgRpmFileNames spec).Perm (spec.subpackages.dedup.map (rpm spec))
  rpm_named : ∀ spec p, p ++ ['-'] <+: rpm spec p

variable {client : KojiClient} {bindir kojiTag package : Text} {depPkgs subPkgs : Option Text}

/-- The paths of the dependencies. -/
def depPaths (client : KojiClient) (bindir kojiTag : Text) (depPkgs : Option Text) : List Text :=
  (splitPkgs depPkgs).map fun p => osPathJoin bindir (client.rpm ⟨kojiTag, p, [p]⟩ p)

/-- The rpm of the kernel. -/
def kernelRpm (client : KojiClient) (kojiTag package : Text) (subPkgs : Option Text) : Text :=
  client.rpm (kernelSpec kojiTag package subPkgs) package

/-- The paths of the sub-packages. -/
def subPaths (client : KojiClient) (bindir kojiTag package : Text) (subPkgs : Option Text) :
    List Text :=
  (splitPkgs subPkgs).dedup.map fun p =>
    osPathJoin bindir (client.rpm (kernelSpec kojiTag package subPkgs) p)

/-- `_kernel_install_rpm` is called with the kernel, and with each of the other packages once. -/
def HandsOver (client : KojiClient) (bindir kojiTag package : Text) (depPkgs : Option Text)
    (needReboot : Bool) (subPkgs : Option Text) : Prop :=
  ∃ call, kernelInstallKoji client.getPkgRpmFileNames bindir kojiTag package depPkgs needReboot
      subPkgs = .ok call ∧
    call.rpmFile = osPathJoin bindir (kernelRpm client kojiTag package subPkgs) ∧
    (words isSpace call.kernelDepsRpms).Nodup ∧
    ∀ w, w ∈ words isSpace call.kernelDepsRpms ↔
      w ∈ depPaths client bindir kojiTag depPkgs ++
        subPaths client bindir kojiTag package subPkgs

/-- What the packages have to be like for that. -/
structure Installable (client : KojiClient) (bindir kojiTag package : Text)
    (depPkgs subPkgs : Option Text) : Prop where
  given : subPkgs ≠ none
  kernel_apart : ∀ p ∈ splitPkgs subPkgs, ¬p <:+: kernelRpm client kojiTag package subPkgs
  not_joined : splitPkgs subPkgs = [] ∨
    splitPkgs depPkgs = [] ∧ (splitPkgs subPkgs).dedup.length = 1
  no_space : ∀ path ∈ depPaths client bindir kojiTag depPkgs ++
    subPaths client bindir kojiTag package subPkgs, ∀ c ∈ path, isSpace c = false
  deps_nodup : (depPaths client bindir kojiTag depPkgs).Nodup

/-! ## The loops -/

theorem KojiClient.names_singleton (client : KojiClient) (tag p : Text) :
    client.getPkgRpmFileNames ⟨tag, p, [p]⟩ = [client.rpm ⟨tag, p, [p]⟩ p] := by
  have hperm := client.names_perm ⟨tag, p, [p]⟩
  rw [(List.nodup_singleton p).dedup, List.map_singleton] at hperm
  exact List.perm_singleton.mp hperm

theorem addDeps_eq (ps : List Text) (depsRpms : Text) :
    addDeps client.getPkgRpmFileNames bindir kojiTag ps depsRpms =
      .ok (depsRpms ++ (ps.map fun p => osPathJoin bindir
        (client.rpm ⟨kojiTag, p, [p]⟩ p)).flatMap (' ' :: ·)) := by
  induction ps generalizing depsRpms with
  | nil => simp [addDeps]
  | cons p ps ih =>
      rw [addDeps, client.names_singleton]
      simp only
      rw [ih, List.map_cons, List.flatMap_cons, List.append_assoc]

/-- The name of a sub-package is found in the file name of a package. -/
def named (subs : List Text) (pkg : Text) : Bool := subs.any fun subPkg => decide (subPkg <:+: pkg)

theorem named_iff {subs : List Text} {pkg : Text} : named subs pkg ↔ ∃ p ∈ subs, p <:+: pkg := by
  simp [named]

theorem named_eq_false {subs : List Text} {pkg : Text} (h : ∀ p ∈ subs, ¬p <:+: pkg) :
    named subs pkg = false := by
  rw [← Bool.not_eq_true, named_iff]
  rintro ⟨p, hp, hnamed⟩
  exact h p hp hnamed

/-- The last package without the name of a sub-package is the kernel, and the others are joined. -/
theorem addSubPkgs_eq (subs pkgs : List Text) (depsRpms : Text) (kernelRpm : Option Text) :
    addSubPkgs bindir (some subs) pkgs depsRpms kernelRpm =
      .ok (depsRpms ++ ((pkgs.filter (named subs)).map (osPathJoin bindir)).flatten,
        ((pkgs.filter fun pkg => !named subs pkg).map (osPathJoin bindir)).getLast?.or
          kernelRpm) := by
  induction pkgs generalizing depsRpms kernelRpm with
  | nil => simp [addSubPkgs]
  | cons pkg pkgs ih =>
      rw [addSubPkgs, ← named]
      cases hpkg : named subs pkg with
      | true =>
          rw [if_pos rfl, ih]
          simp [hpkg]
      | false =>
          rw [if_neg Bool.false_ne_true, ih]
          simp [hpkg, List.getLast?_cons]

/-! ## The packages of the kernel -/

theorem KojiClient.infix_rpm (client : KojiClient) (spec : KojiPkgSpec) (p : Text) :
    p <:+: client.rpm spec p :=
  (List.prefix_append p ['-']).isInfix.trans (client.rpm_named spec p).isInfix

/-- Sub-packages are not taken for the kernel. -/
theorem filter_names
    (h : ∀ p ∈ splitPkgs subPkgs, ¬p <:+: kernelRpm client kojiTag package subPkgs) :
    ((client.getPkgRpmFileNames (kernelSpec kojiTag package subPkgs)).filter
        (named (splitPkgs subPkgs))).Perm
      ((splitPkgs subPkgs).dedup.map (client.rpm (kernelSpec kojiTag package subPkgs))) ∧
    ((client.getPkgRpmFileNames (kernelSpec kojiTag package subPkgs)).filter
        fun pkg => !named (splitPkgs subPkgs) pkg) =
      [kernelRpm client kojiTag package subPkgs] := by
  have hperm := client.names_perm (kernelSpec kojiTag package subPkgs)
  have hkernel : named (splitPkgs subPkgs) (kernelRpm client kojiTag package subPkgs) = false :=
    named_eq_false h
  have hpackage : package ∉ splitPkgs subPkgs :=
    fun hmem => h package hmem (client.infix_rpm _ _)
  have hsubs : ∀ pkg ∈ (splitPkgs subPkgs).dedup.map
      (client.rpm (kernelSpec kojiTag package subPkgs)), named (splitPkgs subPkgs) pkg := by
    intro pkg hpkg
    obtain ⟨p, hp, rfl⟩ := List.mem_map.mp hpkg
    exact named_iff.mpr ⟨p, List.mem_dedup.mp hp, client.infix_rpm _ _⟩
  have hlist : ((kernelSpec kojiTag package subPkgs).subpackages.dedup.map
      (client.rpm (kernelSpec kojiTag package subPkgs))) =
        kernelRpm client kojiTag package subPkgs ::
          (splitPkgs subPkgs).dedup.map (client.rpm (kernelSpec kojiTag package subPkgs)) := by
    rw [kernelRpm, ← List.map_cons, ← List.dedup_cons_of_notMem hpackage]
    rfl
  rw [hlist] at hperm
  constructor
  · have hnamed := hperm.filter (named (splitPkgs subPkgs))
    rwa [List.filter_cons_of_neg (by simp [hkernel]), List.filter_eq_self.mpr hsubs] at hnamed
  · have hother := hperm.filter fun pkg => !named (splitPkgs subPkgs) pkg
    have hnone : ((splitPkgs subPkgs).dedup.map (client.rpm
        (kernelSpec kojiTag package subPkgs))).filter
          (fun pkg => !named (splitPkgs subPkgs) pkg) = [] := by
      rw [List.filter_eq_nil_iff]
      intro pkg hpkg
      simp [hsubs pkg hpkg]
    rw [List.filter_cons_of_pos (by simp [hkernel]), hnone] at hother
    exact List.perm_singleton.mp hother

/-- All packages are taken for sub-packages if the kernel is. -/
theorem filter_names_of_named {p : Text} (hp : p ∈ splitPkgs subPkgs)
    (hnamed : p <:+: kernelRpm client kojiTag package subPkgs) :
    ((client.getPkgRpmFileNames (kernelSpec kojiTag package subPkgs)).filter
        fun pkg => !named (splitPkgs subPkgs) pkg) = [] := by
  rw [List.filter_eq_nil_iff]
  intro pkg hpkg
  rw [(client.names_perm _).mem_iff, List.mem_map] at hpkg
  obtain ⟨q, hq, rfl⟩ := hpkg
  have hq' : q = package ∨ q ∈ splitPkgs subPkgs := by
    simpa [kernelSpec] using hq
  rcases hq' with rfl | hq'
  · rw [← kernelRpm, named_iff.mpr ⟨p, hp, hnamed⟩]
    exact Bool.false_ne_true
  · simp [named_iff.mpr ⟨q, hq', client.infix_rpm _ _⟩]

/-! ## The call -/

theorem kernelInstallKoji_none (needReboot : Bool) :
    kernelInstallKoji client.getPkgRpmFileNames bindir kojiTag package depPkgs needReboot none =
      .error .typeError := by
  have hnames : client.getPkgRpmFileNames (kernelSpec kojiTag package none) =
      [client.rpm (kernelSpec kojiTag package none) package] :=
    client.names_singleton kojiTag package
  rw [kernelInstallKoji, addDeps_eq, hnames]
  rfl

theorem kernelInstallKoji_of_named (needReboot : Bool) {p : Text} (hp : p ∈ splitPkgs subPkgs)
    (hnamed : p <:+: kernelRpm client kojiTag package subPkgs) :
    kernelInstallKoji client.getPkgRpmFileNames bindir kojiTag package depPkgs needReboot subPkgs =
      .error .unboundLocalError := by
  have hnone := filter_names_of_named hp hnamed
  cases subPkgs with
  | none => cases hp
  | some text =>
      have hsplit : splitPkgs (some text) = words isSpace text := rfl
      rw [hsplit] at hnone
      rw [kernelInstallKoji, addDeps_eq, Option.map_some]
      show (addSubPkgs _ _ _ _ _ >>= _) = _
      rw [addSubPkgs_eq, hnone]
      rfl

/-- The string of the packages, with those of the kernel in the order of the client. -/
theorem kernelInstallKoji_eq (bindir : Text) (depPkgs : Option Text) (needReboot : Bool)
    (hgiven : subPkgs ≠ none)
    (h : ∀ p ∈ splitPkgs subPkgs, ¬p <:+: kernelRpm client kojiTag package subPkgs) :
    ∃ paths : List Text, paths.Perm (subPaths client bindir kojiTag package subPkgs) ∧
      kernelInstallKoji client.getPkgRpmFileNames bindir kojiTag package depPkgs needReboot
          subPkgs =
        .ok ⟨osPathJoin bindir (kernelRpm client kojiTag package subPkgs),
          (depPaths client bindir kojiTag depPkgs).flatMap (' ' :: ·) ++ paths.flatten,
          needReboot⟩ := by
  obtain ⟨hperm, hkernel⟩ := filter_names h
  refine ⟨((client.getPkgRpmFileNames (kernelSpec kojiTag package subPkgs)).filter
    (named (splitPkgs subPkgs))).map (osPathJoin bindir), ?_, ?_⟩
  · rw [subPaths, ← Function.comp_def (osPathJoin bindir), ← List.map_map]
    exact hperm.map _
  · cases subPkgs with
    | none => exact absurd rfl hgiven
    | some text =>
        have hsplit : splitPkgs (some text) = words isSpace text := rfl
        rw [hsplit] at hkernel
        rw [kernelInstallKoji, addDeps_eq, Option.map_some]
        show (addSubPkgs _ _ _ _ _ >>= _) = _
        rw [addSubPkgs_eq, hkernel]
        rfl

/-! ## The words of the string -/

theorem osPathJoin_ne_nil {dir file : Text} (h : file ≠ []) : osPathJoin dir file ≠ [] := by
  rw [osPathJoin]
  split_ifs <;> simp [h]

theorem KojiClient.rpm_ne_nil (client : KojiClient) (spec : KojiPkgSpec) (p : Text) :
    client.rpm spec p ≠ [] :=
  (client.rpm_named spec p).ne_nil (by simp)

theorem path_ne_nil {path : Text} (h : path ∈ depPaths client bindir kojiTag depPkgs ++
    subPaths client bindir kojiTag package subPkgs) : path ≠ [] := by
  rcases List.mem_append.mp h with h | h
  all_goals
    obtain ⟨p, -, rfl⟩ := List.mem_map.mp h
    exact osPathJoin_ne_nil (client.rpm_ne_nil _ _)

/-- What is joined without a blank is one word, and it goes on from the last dependency. -/
theorem length_words_of_joined {deps : List Text} {text : Text}
    (hdeps : ∀ w ∈ deps, w ≠ [] ∧ ∀ c ∈ w, isSpace c = false) (hne : text ≠ [])
    (htext : ∀ c ∈ text, isSpace c = false) :
    (words isSpace (deps.flatMap (' ' :: ·) ++ text)).length = max deps.length 1 := by
  rcases List.eq_nil_or_concat deps with rfl | ⟨ds, d, rfl⟩
  · rw [List.flatMap_nil, List.nil_append, words_of_forall hne htext]
    rfl
  · rw [List.concat_eq_append, List.forall_mem_append, List.forall_mem_singleton] at hdeps
    have hlast : ∀ c ∈ d ++ text, isSpace c = false :=
      List.forall_mem_append.mpr ⟨hdeps.2.2, htext⟩
    rw [List.concat_eq_append, List.flatMap_append, List.flatMap_singleton, List.append_assoc,
      List.cons_append, words_append_cons _ _ (by decide), words_flatMap_cons (by decide) hdeps.1,
      words_of_forall (by simp [hne]) hlast]
    simp

/-- Words that are the paths of a string are its parts. -/
theorem perm_of_words {deps paths : List Text} (hne : ∀ w ∈ deps ++ paths, w ≠ [])
    (hnodup : (words isSpace (deps.flatMap (' ' :: ·) ++ paths.flatten)).Nodup)
    (hmem : ∀ w, w ∈ words isSpace (deps.flatMap (' ' :: ·) ++ paths.flatten) ↔
      w ∈ deps ++ paths) :
    (words isSpace (deps.flatMap (' ' :: ·) ++ paths.flatten)).Perm (deps ++ paths) := by
  have hspace : ∀ w ∈ deps ++ paths, ∀ c ∈ w, isSpace c = false :=
    fun w hw => not_of_mem_words ((hmem w).mpr hw)
  have hdeps : ∀ w ∈ deps, w ≠ [] ∧ ∀ c ∈ w, isSpace c = false := fun w hw =>
    ⟨hne w (List.mem_append_left _ hw), hspace w (List.mem_append_left _ hw)⟩
  apply perm_of_length_flatten hnodup hmem hne
  have hpaths : paths.flatten.filter (!isSpace ·) = paths.flatten := by
    rw [List.filter_eq_self]
    intro c hc
    obtain ⟨w, hw, hcw⟩ := List.mem_flatten.mp hc
    simp [hspace w (List.mem_append_right _ hw) c hcw]
  rw [flatten_words, List.filter_append, ← flatten_words, words_flatMap_cons (by decide) hdeps,
    hpaths, List.flatten_append]

/-- If the words are the paths, nothing is joined: there are no sub-packages, or just one and no
dependency. -/
theorem eq_nil_or_of_words {deps paths : List Text}
    (hplain : ∀ w ∈ deps ++ paths, w ≠ [] ∧ ∀ c ∈ w, isSpace c = false)
    (hperm : (words isSpace (deps.flatMap (' ' :: ·) ++ paths.flatten)).Perm (deps ++ paths)) :
    paths = [] ∨ deps = [] ∧ paths.length = 1 := by
  cases paths with
  | nil => exact .inl rfl
  | cons path paths =>
      have hflat : (path :: paths).flatten ≠ [] := by
        have hpath := (hplain path (by simp)).1
        simp [hpath]
      have hspace : ∀ c ∈ (path :: paths).flatten, isSpace c = false := by
        intro c hc
        obtain ⟨w, hw, hcw⟩ := List.mem_flatten.mp hc
        exact (hplain w (List.mem_append_right _ hw)).2 c hcw
      -- all the sub-packages are in one word
      have hcount := hperm.length_eq
      rw [length_words_of_joined (fun w hw => hplain w (List.mem_append_left _ hw)) hflat hspace,
        List.length_append, List.length_cons] at hcount
      refine .inr ⟨List.eq_nil_of_length_eq_zero ?_, ?_⟩
      · omega
      · rw [List.length_cons]
        omega

theorem words_of_installable (h : Installable client bindir kojiTag package depPkgs subPkgs)
    {paths : List Text} (hpaths : paths.Perm (subPaths client bindir kojiTag package subPkgs)) :
    words isSpace ((depPaths client bindir kojiTag depPkgs).flatMap (' ' :: ·) ++ paths.flatten) =
        depPaths client bindir kojiTag depPkgs ++
          subPaths client bindir kojiTag package subPkgs ∧
      (depPaths client bindir kojiTag depPkgs ++
        subPaths client bindir kojiTag package subPkgs).Nodup := by
  have hplain : ∀ w ∈ depPaths client bindir kojiTag depPkgs ++
      subPaths client bindir kojiTag package subPkgs, w ≠ [] ∧ ∀ c ∈ w, isSpace c = false :=
    fun w hw => ⟨path_ne_nil hw, h.no_space w hw⟩
  rcases h.not_joined with hsubs | ⟨hdeps, hone⟩
  · have hnone : subPaths client bindir kojiTag package subPkgs = [] := by
      simp [subPaths, hsubs]
    rw [hnone] at hpaths hplain ⊢
    rw [List.perm_nil.mp hpaths, List.flatten_nil, List.append_nil, List.append_nil]
    rw [List.append_nil] at hplain
    exact ⟨words_flatMap_cons (by decide) hplain, h.deps_nodup⟩
  · have hnone : depPaths client bindir kojiTag depPkgs = [] := by
      simp [depPaths, hdeps]
    obtain ⟨path, hpath⟩ : ∃ path, subPaths client bindir kojiTag package subPkgs = [path] := by
      rw [← List.length_eq_one_iff, subPaths, List.length_map, hone]
    rw [hnone, hpath, List.nil_append, List.forall_mem_singleton] at hplain
    rw [hpath] at hpaths
    rw [hnone, hpath, List.perm_singleton.mp hpaths, List.flatten_singleton, List.flatMap_nil,
      List.nil_append, List.nil_append]
    exact ⟨words_of_forall hplain.1 hplain.2, List.nodup_singleton path⟩

theorem installable_of_handsOver {needReboot : Bool}
    (h : HandsOver client bindir kojiTag package depPkgs needReboot subPkgs) :
    Installable client bindir kojiTag package depPkgs subPkgs := by
  obtain ⟨call, hcall, -, hnodup, hmem⟩ := h
  have hgiven : subPkgs ≠ none := by
    rintro rfl
    rw [kernelInstallKoji_none] at hcall
    cases hcall
  have hapart : ∀ p ∈ splitPkgs subPkgs, ¬p <:+: kernelRpm client kojiTag package subPkgs := by
    intro p hp hnamed
    rw [kernelInstallKoji_of_named needReboot hp hnamed] at hcall
    cases hcall
  obtain ⟨paths, hpaths, heq⟩ := kernelInstallKoji_eq bindir depPkgs needReboot hgiven hapart
  obtain rfl := Except.ok.inj (heq.symm.trans hcall)
  have hsame : ∀ w, w ∈ depPaths client bindir kojiTag depPkgs ++ paths ↔
      w ∈ depPaths client bindir kojiTag depPkgs ++
        subPaths client bindir kojiTag package subPkgs :=
    fun w => (hpaths.append_left _).mem_iff
  have hspace : ∀ path ∈ depPaths client bindir kojiTag depPkgs ++
      subPaths client bindir kojiTag package subPkgs, ∀ c ∈ path, isSpace c = false :=
    fun path hpath => not_of_mem_words ((hmem path).mpr hpath)
  have hne : ∀ w ∈ depPaths client bindir kojiTag depPkgs ++ paths, w ≠ [] :=
    fun w hw => path_ne_nil ((hsame w).mp hw)
  have hperm := perm_of_words hne hnodup fun w => (hmem w).trans (hsame w).symm
  refine ⟨hgiven, hapart, ?_, hspace, (List.nodup_append.mp (hperm.nodup_iff.mp hnodup)).1⟩
  rcases eq_nil_or_of_words (fun w hw => ⟨hne w hw, hspace w ((hsame w).mp hw)⟩) hperm with
    hnone | ⟨hdeps, hone⟩
  · left
    rw [hnone] at hpaths
    simpa [subPaths] using List.nil_perm.mp hpaths
  · right
    rw [hpaths.length_eq, subPaths, List.length_map] at hone
    exact ⟨List.map_eq_nil_iff.mp hdeps, hone⟩

/-- The kernel is handed over with its packages exactly if they are `Installable`. -/
theorem handsOver_iff (client : KojiClient) (bindir kojiTag package : Text)
    (depPkgs : Option Text) (needReboot : Bool) (subPkgs : Option Text) :
    HandsOver client bindir kojiTag package depPkgs needReboot subPkgs ↔
      Installable client bindir kojiTag package depPkgs subPkgs := by
  refine ⟨installable_of_handsOver, fun h => ?_⟩
  obtain ⟨paths, hpaths, heq⟩ :=
    kernelInstallKoji_eq bindir depPkgs needReboot h.given h.kernel_apart
  have hwords := words_of_installable h hpaths
  refine ⟨_, heq, rfl, ?_, ?_⟩
  · show (words isSpace _).Nodup
    rw [hwords.1]
    exact hwords.2
  · intro w
    show w ∈ words isSpace _ ↔ _
    rw [hwords.1]

/-- Every package is in version 1, and the client lists the packages as they are asked for. -/
def firstVersions : KojiClient where
  rpm _ p := p ++ "-1-1.rpm".toList
  getPkgRpmFileNames spec := spec.subpackages.dedup.map fun p => p ++ "-1-1.rpm".toList
  names_perm _ := .rfl
  rpm_named _ p := (List.prefix_append_right_inj p).mpr ⟨"1-1.rpm".toList, rfl⟩

/-- No `sub_pkgs`, and a dependency with a sub-package. -/
theorem handsOver_fails :
    ¬HandsOver firstVersions "/test".toList "f18".toList "kernel".toList none true none ∧
      ¬HandsOver firstVersions "/test".toList "f18".toList "kernel".toList
        (some "dracut".toList) true (some "kernel-headers".toList) := by
  constructor
  · rintro ⟨call, hcall, -⟩
    rw [kernelInstallKoji_none] at hcall
    cases hcall
  · rintro ⟨call, hcall, -, -, hmem⟩
    have hrun : kernelInstallKoji firstVersions.getPkgRpmFileNames "/test".toList "f18".toList
        "kernel".toList (some "dracut".toList) true (some "kernel-headers".toList) =
          .ok ⟨"/test/kernel-1-1.rpm".toList,
            " /test/dracut-1-1.rpm/test/kernel-headers-1-1.rpm".toList, true⟩ := by
      decide
    obtain rfl := Except.ok.inj (hrun.symm.trans hcall)
    have hdracut := (hmem "/test/dracut-1-1.rpm".toList).mpr (by decide)
    revert hdracut
    decide

end AutotestClient.KernelInstall
