import ScriptBundle.Proofs.Resolver.Results

/-!
# The candidates of a specifier

A specifier leads to the first of its candidates that is a file. For a package there is one exception:
the entry that a manifest names is taken at its word, so it can be something else, or nothing at all.

* `candidates`, with `packageCandidates`: the files that a specifier may lead to, in order;
* `manifestPackage?`, `EntryIsFile`: the package whose manifest counts, and that its entry is there;
* `resolve_cases`: resolving as the search for the first file;
* `isFile_of_resolve_iff`, `resolve_leads_to_file`: when a specifier leads to a file.
-/

namespace ScriptBundle

/-- What is read from the members of a manifest never fails. -/
theorem Manifest.entry_eq_error_iff {ws : Workspace} {path : Path} {f : Failure} :
    (Manifest.entry ws path).result = .error f ↔ Manifest.read ws path = .error f := by
  have hentryOf (members : List (Text × Json)) : (Manifest.entryOf path members).result ≠ .error f := by
    unfold Manifest.entryOf
    split <;> exact nofun
  rw [Manifest.entry, Logged.result_bind_eq_error_iff]
  refine ⟨fun h => h.resolve_right ?_, .inl⟩
  rintro ⟨members, -, h⟩
  exact hentryOf members h

namespace Resolver

variable {r : Resolver} {specifier : Text} {importer : Option Text} {package script p q : Path}
  {cs ds : List (Except NameFault Path)} {f : Failure}

/-! ### The first file -/

/-- Candidates that are no files do not count. -/
theorem firstFile_append (h : ∀ c ∈ cs, ∃ x, c = .ok x ∧ r.isFile x = false) :
    r.firstFile (cs ++ ds) = r.firstFile ds := by
  induction cs with
  | nil => rfl
  | cons c cs ih =>
    obtain ⟨x, rfl, hx⟩ := h c List.mem_cons_self
    rw [List.cons_append, firstFile, hx]
    exact ih fun c hc => h c (List.mem_cons_of_mem _ hc)

theorem isFile_of_firstFile (h : r.firstFile cs = .ok (some q)) : r.isFile q := by
  induction cs with
  | nil => cases h
  | cons c cs ih =>
    cases c with
    | error e => cases h
    | ok p =>
      rw [firstFile] at h
      split at h
      · next hp =>
        cases h
        exact hp
      · exact ih h

/-! ### The files of a package -/

/-- The entry that the manifest of a package names; a package without a manifest has none. -/
def manifestEntry (r : Resolver) (package : Path) : Except Failure (Option Text) :=
  let manifest := package.join "package.json"
  if r.isFile manifest then (Manifest.entry r.workspace manifest).result else .ok none

/-- The path that the entry of a package denotes. -/
def entryFile? (r : Resolver) (package : Path) : Option Path :=
  (r.manifestEntry package).toOption.join.map fun entry => r.normalize (package.join entry).text

/-- The script that stands next to the directory of a package. -/
def scriptFile (r : Resolver) (package : Path) : Except NameFault Path :=
  package.withName (package.name ++ r.settings.packageExtension)

/-- The index file of a package. -/
def indexFile (r : Resolver) (package : Path) : Path :=
  package.join (r.settings.indexName ++ r.settings.packageExtension)

/-- The files that a package may stand for, in order: its script, the entry of its manifest, and its
index file. -/
def packageCandidates (r : Resolver) (package : Path) : List (Except NameFault Path) :=
  r.scriptFile package :: ((r.entryFile? package).toList ++ [r.indexFile package]).map .ok

/-- The directory of the package that a specifier names. -/
def packageAt? (r : Resolver) (specifier : Text) (importer : Option Text) : Option Path :=
  (r.packageRoot? (r.normalize (r.baseDirectory importer).text)).map fun root =>
    r.normalize (root.join specifier).text

/-- The package whose manifest counts for a specifier: the one that it names, unless there is a
script. -/
def manifestPackage? (r : Resolver) (specifier : Text) (importer : Option Text) : Option Path :=
  if isRelativeSpecifier specifier then none
  else (r.packageAt? specifier importer).filter fun package =>
    (r.scriptFile package).toOption.any fun script => !r.isFile script

/-- The files that a specifier may lead to, in order. -/
def candidates (r : Resolver) (specifier : Text) (importer : Option Text) :
    List (Except NameFault Path) :=
  if isRelativeSpecifier specifier then
    r.relativeCandidates (r.normalize ((r.baseDirectory importer).join specifier).text)
  else ((r.packageAt? specifier importer).map r.packageCandidates).getD []

/-- If a manifest counts for the specifier and names an entry, then the entry is a file. -/
def EntryIsFile (r : Resolver) (specifier : Text) (importer : Option Text) : Prop :=
  ∀ package ∈ r.manifestPackage? specifier importer, ∀ entry ∈ r.entryFile? package, r.isFile entry

instance (r : Resolver) (specifier : Text) (importer : Option Text) :
    Decidable (r.EntryIsFile specifier importer) :=
  inferInstanceAs (Decidable (∀ package ∈ r.manifestPackage? specifier importer,
    ∀ entry ∈ r.entryFile? package, r.isFile entry))

/-- The manifest that counts for the specifier cannot be read, or says nothing. -/
def ManifestFails (r : Resolver) (specifier : Text) (importer : Option Text) (f : Failure) : Prop :=
  ∃ package ∈ r.manifestPackage? specifier importer, r.isFile (package.join "package.json") ∧
    Manifest.read r.workspace (package.join "package.json") = .error f

/-- The file of a package is its script, or what its manifest or its index file comes to. -/
theorem result_packageFile (r : Resolver) (package script : Path) :
    (r.packageFile package script).result =
      if r.isFile script then .ok (some script)
      else (r.manifestEntry package).map fun
        | some entry => some (r.normalize (package.join entry).text)
        | none => if r.isFile (r.indexFile package) then some (r.indexFile package) else none := by
  unfold packageFile manifestEntry
  simp only
  split
  · rfl
  · split
    · rw [Logged.result_bind]
      cases (Manifest.entry r.workspace (package.join "package.json")).result with
      | error f => rfl
      | ok entry => cases entry <;> rfl
    · rfl

theorem result_packageFile_of_script (h : r.isFile script) :
    (r.packageFile package script).result = .ok (some script) := by
  rw [result_packageFile, if_pos h]

theorem result_packageFile_of_manifest_error (hs : r.isFile script = false)
    (h : r.manifestEntry package = .error f) : (r.packageFile package script).result = .error f := by
  rw [result_packageFile, if_neg (by simp [hs]), h]
  rfl

/-- The entry of a manifest is taken at its word. -/
theorem result_packageFile_of_entry (hs : r.isFile script = false)
    (h : p ∈ r.entryFile? package) : (r.packageFile package script).result = .ok (some p) := by
  rw [result_packageFile, if_neg (by simp [hs])]
  unfold entryFile? at h
  cases hm : r.manifestEntry package with
  | error f =>
    rw [hm] at h
    cases h
  | ok entry? =>
    rw [hm] at h
    cases entry? with
    | none => cases h
    | some entry =>
      obtain rfl : r.normalize (package.join entry).text = p := Option.some.inj h
      rfl

/-- Without a script and an entry there is the index file. -/
theorem result_packageFile_of_index (hs : r.isFile script = false)
    (h : r.manifestEntry package = .ok none) :
    (r.packageFile package script).result =
      .ok (if r.isFile (r.indexFile package) then some (r.indexFile package) else none) := by
  rw [result_packageFile, if_neg (by simp [hs]), h]
  rfl

theorem mem_manifestPackage? (hspecifier : isRelativeSpecifier specifier = false)
    (hpackage : r.packageAt? specifier importer = some package)
    (hscript : r.scriptFile package = .ok script) (hs : r.isFile script = false) :
    package ∈ r.manifestPackage? specifier importer := by
  rw [manifestPackage?, if_neg (by simp [hspecifier]), hpackage]
  simp [hscript, Except.toOption, hs]

theorem manifestFails_of_manifestEntry (hpackage : package ∈ r.manifestPackage? specifier importer)
    (h : r.manifestEntry package = .error f) : r.ManifestFails specifier importer f := by
  unfold manifestEntry at h
  simp only at h
  split at h
  · next hfile => exact ⟨package, hpackage, hfile, Manifest.entry_eq_error_iff.1 h⟩
  · cases h

/-! ### What a specifier leads to -/

/-- How the search for a file among the candidates of a specifier ends. -/
inductive Search (r : Resolver) (specifier : Text) (importer : Option Text) :
    Except Failure Path → Prop
  | found {p : Path} (h : r.firstFile (r.candidates specifier importer) = .ok (some p)) :
      Search r specifier importer (.ok p)
  | notFound {cause : NotFound} (h : r.firstFile (r.candidates specifier importer) = .ok none) :
      Search r specifier importer (.error (.moduleNotFound cause specifier importer))
  | unnamed {e : NameFault} (h : r.firstFile (r.candidates specifier importer) = .error e) :
      Search r specifier importer (.error (.name e))
  | manifest {f : Failure} (h : r.ManifestFails specifier importer f) :
      Search r specifier importer (.error f)

theorem search_of_resolveRelative (hspecifier : isRelativeSpecifier specifier) :
    r.Search specifier importer (r.resolveRelative specifier importer) := by
  have hcandidates : r.candidates specifier importer =
      r.relativeCandidates (r.normalize ((r.baseDirectory importer).join specifier).text) :=
    if_pos hspecifier
  unfold resolveRelative
  simp only [← hcandidates]
  cases h : r.firstFile (r.candidates specifier importer) with
  | error e => exact .unnamed h
  | ok file? =>
    cases file? with
    | some file => exact .found h
    | none => exact .notFound h

/-- What a path-like specifier leads to is a file. -/
theorem isFile_of_resolveRelative (h : r.resolveRelative specifier importer = .ok p) : r.isFile p := by
  unfold resolveRelative at h
  simp only at h
  split at h
  · cases h
  · next file hfile =>
    cases h
    exact isFile_of_firstFile hfile
  · cases h

/-- The result for a package, by its file. -/
theorem result_resolvePackage (hpackage : r.packageAt? specifier importer = some package)
    (hscript : r.scriptFile package = .ok script) :
    (r.resolvePackage specifier importer).result =
      (r.packageFile package script).result.bind fun
        | some file => .ok file
        | none => .error (.moduleNotFound .package specifier importer) := by
  obtain ⟨root, hroot, rfl⟩ := Option.map_eq_some_iff.1 hpackage
  unfold resolvePackage
  rw [scriptFile] at hscript
  simp only [hroot, hscript, Logged.result_bind]
  refine congrArg (Except.bind _) (funext fun file? => ?_)
  cases file? <;> rfl

theorem candidates_of_packageAt (hspecifier : isRelativeSpecifier specifier = false)
    (hpackage : r.packageAt? specifier importer = some package) :
    r.candidates specifier importer = r.packageCandidates package := by
  rw [candidates, if_neg (by simp [hspecifier]), hpackage]
  rfl

/-- A script that is no file does not count. -/
theorem firstFile_packageCandidates (hscript : r.scriptFile package = .ok script)
    (hs : r.isFile script = false) :
    r.firstFile (r.packageCandidates package) =
      r.firstFile (((r.entryFile? package).toList ++ [r.indexFile package]).map .ok) := by
  rw [packageCandidates, hscript, firstFile, if_neg (by simp [hs])]

/-- Without a script, the manifest of the package counts, and then its index file. -/
theorem search_of_no_script (hspecifier : isRelativeSpecifier specifier = false)
    (hpackage : r.packageAt? specifier importer = some package)
    (hscript : r.scriptFile package = .ok script) (hs : r.isFile script = false)
    (h : r.EntryIsFile specifier importer) :
    r.Search specifier importer (r.resolvePackage specifier importer).result := by
  have hmanifest := mem_manifestPackage? hspecifier hpackage hscript hs
  have hfirst := firstFile_packageCandidates hscript hs
  rw [← candidates_of_packageAt hspecifier hpackage] at hfirst
  rw [result_resolvePackage hpackage hscript]
  cases hm : r.manifestEntry package with
  | error f =>
    rw [result_packageFile_of_manifest_error hs hm]
    exact .manifest (manifestFails_of_manifestEntry hmanifest hm)
  | ok entry? =>
    cases entry? with
    | some entry =>
      have hentry : r.entryFile? package = some (r.normalize (package.join entry).text) := by
        rw [entryFile?, hm]
        rfl
      rw [result_packageFile_of_entry hs hentry]
      rw [hentry, Option.toList_some, List.singleton_append, List.map_cons, firstFile,
        if_pos (h package hmanifest _ hentry)] at hfirst
      exact .found hfirst
    | none =>
      rw [result_packageFile_of_index hs hm]
      rw [entryFile?, hm] at hfirst
      cases hindex : r.isFile (r.indexFile package) with
      | true => exact .found (by rw [hfirst]; simp [Except.toOption, firstFile, hindex])
      | false => exact .notFound (by rw [hfirst]; simp [Except.toOption, firstFile, hindex])

theorem search_of_resolvePackage (hspecifier : isRelativeSpecifier specifier = false)
    (h : r.EntryIsFile specifier importer) :
    r.Search specifier importer (r.resolvePackage specifier importer).result := by
  cases hpackage : r.packageAt? specifier importer with
  | none =>
    have hroot := Option.map_eq_none_iff.1 hpackage
    unfold resolvePackage
    simp only [hroot]
    refine .notFound ?_
    rw [candidates, if_neg (by simp [hspecifier]), hpackage]
    rfl
  | some package =>
    have hcandidates := candidates_of_packageAt hspecifier hpackage
    cases hscript : r.scriptFile package with
    | error e =>
      obtain ⟨root, hroot, rfl⟩ := Option.map_eq_some_iff.1 hpackage
      rw [packageCandidates, hscript] at hcandidates
      rw [scriptFile] at hscript
      unfold resolvePackage
      simp only [hroot, hscript]
      exact .unnamed (by rw [hcandidates]; rfl)
    | ok script =>
      cases hs : r.isFile script with
      | true =>
        rw [result_resolvePackage hpackage hscript, result_packageFile_of_script hs]
        exact .found (by rw [hcandidates, packageCandidates, hscript, firstFile, if_pos hs])
      | false => exact search_of_no_script hspecifier hpackage hscript hs h

/-- If the entry of the manifest is there, resolving is the search for the first file, which a manifest
can only break off. -/
theorem search_of_resolve (h : r.EntryIsFile specifier importer) :
    r.Search specifier importer (r.resolve specifier importer).result := by
  unfold resolve
  split
  · next hspecifier => exact search_of_resolveRelative hspecifier
  · next hspecifier => exact search_of_resolvePackage (by simpa using hspecifier) h

theorem isFile_of_search (h : r.Search specifier importer (.ok p)) : r.isFile p := by
  cases h with
  | found h => exact isFile_of_firstFile h

/-- If a manifest counts for the specifier and names an entry, then the specifier leads there. -/
theorem result_resolve_of_entry (hpackage : package ∈ r.manifestPackage? specifier importer)
    (hentry : p ∈ r.entryFile? package) : (r.resolve specifier importer).result = .ok p := by
  unfold manifestPackage? at hpackage
  split at hpackage
  · cases hpackage
  · next hspecifier =>
    obtain ⟨hpackage, hscript⟩ := Option.mem_filter_iff.1 hpackage
    cases hs : r.scriptFile package with
    | error e =>
      rw [hs] at hscript
      cases hscript
    | ok script =>
      rw [hs] at hscript
      rw [resolve, if_neg hspecifier, result_resolvePackage hpackage hs,
        result_packageFile_of_entry (by simpa [Except.toOption] using hscript) hentry]
      rfl

/-- A specifier that leads anywhere leads to a file, if and only if the entry of its manifest is one. -/
theorem isFile_of_resolve_iff :
    (∀ p, (r.resolve specifier importer).result = .ok p → r.isFile p) ↔
      r.EntryIsFile specifier importer := by
  refine ⟨fun h package hpackage entry hentry => ?_, fun h p hp => ?_⟩
  · exact h entry (result_resolve_of_entry hpackage hentry)
  · exact isFile_of_search (hp ▸ search_of_resolve h)

/-- Where a specifier leads to what is no file, a manifest names it. -/
theorem exists_entry_of_resolve (h : (r.resolve specifier importer).result = .ok p)
    (hfile : r.isFile p = false) :
    ∃ package ∈ r.manifestPackage? specifier importer, p ∈ r.entryFile? package := by
  have hnot : ¬ r.EntryIsFile specifier importer := by
    intro hentry
    rw [isFile_of_resolve_iff.2 hentry p h] at hfile
    cases hfile
  unfold EntryIsFile at hnot
  push Not at hnot
  obtain ⟨package, hpackage, entry, hentry, -⟩ := hnot
  obtain rfl := Except.ok.inj (h.symm.trans (result_resolve_of_entry hpackage hentry))
  exact ⟨package, hpackage, hentry⟩

/-- If the entry of the manifest is there, a specifier leads to the first of its candidates that is a
file. If there is none, it leads to no module, unless the manifest fails or a candidate cannot be
named. -/
theorem resolve_leads_to_file (h : r.EntryIsFile specifier importer) :
    (∀ p, (r.resolve specifier importer).result = .ok p →
      r.isFile p ∧ r.firstFile (r.candidates specifier importer) = .ok (some p)) ∧
    ((∀ p, .ok p ∈ r.candidates specifier importer → r.isFile p = false) →
      ∃ f, (r.resolve specifier importer).result = .error f ∧
        ((∃ cause, f = .moduleNotFound cause specifier importer) ∨
          r.ManifestFails specifier importer f ∨
          ∃ e, .error e ∈ r.candidates specifier importer ∧ f = .name e)) := by
  have hsearch := search_of_resolve h
  refine ⟨fun p hp => ?_, fun hnone => ?_⟩
  · rw [hp] at hsearch
    cases hsearch with
    | found hfirst => exact ⟨isFile_of_firstFile hfirst, hfirst⟩
  · generalize (r.resolve specifier importer).result = x at hsearch
    cases hsearch with
    | found hfirst =>
      have hfile := isFile_of_firstFile hfirst
      rw [hnone _ (mem_of_firstFile hfirst)] at hfile
      cases hfile
    | notFound _ => exact ⟨_, rfl, .inl ⟨_, rfl⟩⟩
    | unnamed hfirst => exact ⟨_, rfl, .inr (.inr ⟨_, mem_of_firstFile_error hfirst, rfl⟩)⟩
    | manifest hf => exact ⟨_, rfl, .inr (.inl hf)⟩

/-- Two packages: the entry of `q` is a file, and that of `lost` is none. -/
def twoPackages : Resolver where
  workspace :=
    { tree := ((FileTree.empty.insertFile ["p", "node_modules", "q", "package.json"]
          (.file "\x7b\"main\": \"lib.js\"\x7d".toUTF8.toList)).insertFile
          ["p", "node_modules", "q", "lib.js"] (.file [])).insertFile
          ["p", "node_modules", "lost", "package.json"] (.file "\x7b\"main\": \"lib\"\x7d".toUTF8.toList)
      cwd := ⟨.top, ["p"]⟩ }
  settings := {}
  directory := ⟨.top, ["p"]⟩

/-- No candidate of `lost` is a file, and yet it leads somewhere. -/
theorem resolve_lost :
    (twoPackages.resolve "lost" (some "/p/a.ts")).result =
        .ok ⟨.top, ["p", "node_modules", "lost", "lib"]⟩ ∧
      twoPackages.isFile ⟨.top, ["p", "node_modules", "lost", "lib"]⟩ = false ∧
      ∀ p, .ok p ∈ twoPackages.candidates "lost" (some "/p/a.ts") → twoPackages.isFile p = false := by
  have hresult : (twoPackages.resolve "lost" (some "/p/a.ts")).result.toOption.any
      (· = ⟨.top, ["p", "node_modules", "lost", "lib"]⟩) := by
    decide +kernel
  have hnone : ∀ c ∈ twoPackages.candidates "lost" (some "/p/a.ts"),
      c.toOption.all (fun p => !twoPackages.isFile p) := by
    decide +kernel
  obtain ⟨p, hp, hpath⟩ := Except.exists_of_any_toOption hresult
  exact ⟨hp.trans (congrArg _ (of_decide_eq_true hpath)), by decide +kernel,
    fun p hp => by simpa [Except.toOption] using hnone _ hp⟩

theorem resolve_leads_to_file_twoPackages :
    twoPackages.EntryIsFile "q" (some "/p/a.ts") ∧
      ∃ p, (twoPackages.resolve "q" (some "/p/a.ts")).result = .ok p ∧ twoPackages.isFile p ∧
        twoPackages.firstFile (twoPackages.candidates "q" (some "/p/a.ts")) = .ok (some p) := by
  have hentry : twoPackages.EntryIsFile "q" (some "/p/a.ts") := by decide +kernel
  have hok : (twoPackages.resolve "q" (some "/p/a.ts")).result.toOption.any fun _ => true := by
    decide +kernel
  obtain ⟨p, hp, -⟩ := Except.exists_of_any_toOption hok
  exact ⟨hentry, p, hp, (resolve_leads_to_file hentry).1 p hp⟩

end Resolver

end ScriptBundle
