import ScriptBundle.Proofs.ModuleGraph.Bound
import ScriptBundle.Proofs.Project.Site
import ScriptBundle.Proofs.Resolver.Candidates
import ScriptBundle.Proofs.Session.Agree

/-!
# Resolving specifiers at two sites

As long as a specifier does not lead out of the project, it is resolved alike at every site: either it
leads nowhere at all sites, or to one place of the project. The candidates that lie outside, next to the
project, are never files.

* `Project.Contains`, `Project.SelfContained`: specifiers and manifest entries that stay in the project;
* `SamePlace`, `Matches`: two paths, at two sites, of one place, or of what is no file at either;
* `exists_firstFile`, `exists_script`: the files that are tried;
* `resolveRelative_agrees`, `resolvePackage_agrees`, `resolve_agrees`: what specifiers lead to.
-/

namespace ScriptBundle

open Path

theorem isDown_manifest : IsDown "package.json" := by decide

/-- A manifest that gives members has a text. -/
theorem Manifest.exists_text_of_read {ws : Workspace} {path : Path} {members : List (Text × Json)}
    (h : Manifest.read ws path = .ok members) : ∃ source, ws.tree.readText ws.cwd path = .ok source := by
  unfold Manifest.read at h
  split at h
  · cases h
  · cases h
  · cases h
  · next source hsource => exact ⟨source, hsource⟩

namespace Project

/-- A specifier in a file of the directory `dir` does not lead out of the project: neither from that
directory, nor, if it names a package, from the package directory that counts there. -/
def Contains (P : Project) (dir : Location) (specifier : Text) : Prop :=
  if isRelativeSpecifier specifier then StaysInside dir specifier
  else ∀ packages ∈ P.resolver.packageRoot? ⟨.top, dir⟩, StaysInside packages.parts specifier

instance (P : Project) (dir : Location) (specifier : Text) : Decidable (P.Contains dir specifier) :=
  inferInstanceAs (Decidable (if isRelativeSpecifier specifier then StaysInside dir specifier
    else ∀ packages ∈ P.resolver.packageRoot? ⟨.top, dir⟩, StaysInside packages.parts specifier))

/-- No specifier and no manifest entry of the project leads out of it. -/
structure SelfContained (P : Project) : Prop where
  specifiers : ∀ (file : Place) (specifier : Text),
    Discovery.Imports P.resolver file.path specifier → P.Contains file.parent.parts specifier
  manifests : ∀ (package : Place) (entry : Text),
    (Manifest.entry P.resolver.workspace (package.path.join "package.json")).result = .ok (some entry) →
      StaysInside package.parts entry

/-- The specifiers in the file at a location. -/
def specifiersAt (P : Project) (loc : Location) : List Text :=
  ((Discovery.readSource P.resolver ⟨.top, loc⟩).bind (Discovery.edgesOf ⟨.top, loc⟩)).toOption.getD []

/-- The entry that the manifest at a location names. -/
def entryAt? (P : Project) (loc : Location) : Option Text :=
  (Manifest.entry P.resolver.workspace ⟨.top, loc⟩).result.toOption.join

theorem specifiersAt_eq {P : Project} {file : Place} {source : Text} {edges : List Text}
    (hsource : Discovery.readSource P.resolver file.path = .ok source)
    (hedges : Discovery.edgesOf file.path source = .ok edges) : P.specifiersAt file.parts = edges := by
  show ((Discovery.readSource P.resolver file.path).bind (Discovery.edgesOf file.path)).toOption.getD [] =
    edges
  rw [hsource]
  show (Discovery.edgesOf file.path source).toOption.getD [] = edges
  rw [hedges]
  rfl

theorem entryAt?_eq {P : Project} {manifest : Place} {entry : Text}
    (h : (Manifest.entry P.resolver.workspace manifest.path).result = .ok (some entry)) :
    P.entryAt? manifest.parts = some entry := by
  show (Manifest.entry P.resolver.workspace manifest.path).result.toOption.join = some entry
  rw [h]
  rfl

/-- It is enough to look at the files that there are. -/
theorem SelfContained.of_entries {P : Project}
    (hspecifiers : ∀ loc ∈ P.tree.entries.map (·.1), ∀ specifier ∈ P.specifiersAt loc,
      P.Contains loc.dropLast specifier)
    (hmanifests : ∀ loc ∈ P.tree.entries.map (·.1), loc.getLast? = some (Text.ofString "package.json") →
      ∀ entry ∈ P.entryAt? loc, StaysInside loc.dropLast entry) : P.SelfContained := by
  refine ⟨fun file specifier ⟨source, edges, hsource, hedges, hs⟩ => ?_, fun package entry hentry => ?_⟩
  · have hfile := P.mem_entries_of_readText (Discovery.readText_of_readSource hsource)
    exact hspecifiers _ hfile specifier (specifiersAt_eq hsource hedges ▸ hs)
  · let manifest := package.child _ isDown_manifest
    have hpath : package.path.join "package.json" = manifest.path := package.join_path isDown_manifest
    rw [hpath] at hentry
    obtain ⟨members, hread, -⟩ := Logged.result_bind_eq_ok_iff.1 hentry
    obtain ⟨source, htext⟩ := Manifest.exists_text_of_read hread
    have hlast : manifest.parts.getLast? = some (Text.ofString "package.json") :=
      List.getLast?_concat
    have hdir : manifest.parts.dropLast = package.parts := List.dropLast_concat
    exact hdir ▸ hmanifests _ (P.mem_entries_of_readText htext) hlast entry (entryAt?_eq hentry)

end Project

namespace Site

variable {P : Project} {p q dir : Place}

/-- The paths, one at each site, are those of one place of the project. -/
def SamePlace (a b : Site P) (x y : Path) : Prop := ∃ p : Place, x = a.path p ∧ y = b.path p

/-- The paths, one at each site, are those of one place of the project, or of no file at either site. -/
def Matches (a b : Site P) (x y : Path) : Prop :=
  SamePlace a b x y ∨ a.resolver.isFile x = false ∧ b.resolver.isFile y = false

section Bases

variable (s : Site P)

theorem join_path {name : Text} (hname : IsDown name) :
    (s.path p).join name = s.path (p.child name hname) := p.join_below hname

/-- A text that stays inside leads to the same place at every site. -/
theorem normalize_join {text : Text} (h : StaysInside p.parts text) :
    s.resolver.normalize ((s.path p).join text).text = s.path (p.follow text) :=
  p.normalize_join_below s.down h

theorem normalize_path (p : Place) : s.resolver.normalize (s.path p).text = s.path p :=
  (s.normal_path p).normalize_text _

theorem baseDirectory_none : s.resolver.baseDirectory none = s.path .top := s.path_top.symm

theorem baseDirectory_some (hp : p ≠ .top) :
    s.resolver.baseDirectory (some (s.path p).text) = s.path p.parent := by
  show (ofText (s.path p).text).parent = _
  rw [ofText_text (s.normal_path p).anchored]
  exact Place.parent_below hp

theorem isFile_top : s.resolver.isFile (s.path .top) = false := by
  rw [isFile_path]
  show P.tree.isFile _ ⟨.top, []⟩ = false
  unfold FileTree.isFile
  rw [FileTree.locate_of_absolute (by simp)]
  rfl

end Bases

/-! ### The files that are tried -/

/-- The first of some places that is a file. -/
theorem firstFile_map (s : Site P) (places : List Place) :
    s.resolver.firstFile (places.map fun p => .ok (s.path p)) =
      .ok ((places.find? fun p => P.resolver.isFile p.path).map s.path) := by
  induction places with
  | nil => rfl
  | cons p places ih =>
    rw [List.map_cons, Resolver.firstFile, isFile_path, List.find?_cons]
    cases P.resolver.isFile p.path with
    | true => rfl
    | false => exact ih

/-- What each of a list of texts becomes is a place that does not depend on the site. -/
theorem exists_places {texts : List Text} {f : Site P → Text → Except NameFault Path}
    (h : ∀ text ∈ texts, ∃ p : Place, ∀ s, f s text = .ok (s.path p)) :
    ∃ places : List Place, ∀ s, texts.map (f s) = places.map fun p => .ok (s.path p) := by
  induction texts with
  | nil => exact ⟨[], fun _ => rfl⟩
  | cons text texts ih =>
    obtain ⟨p, hp⟩ := h text List.mem_cons_self
    obtain ⟨places, hplaces⟩ := ih fun t ht => h t (List.mem_cons_of_mem _ ht)
    exact ⟨p :: places, fun s => by rw [List.map_cons, List.map_cons, hp, hplaces]⟩

section Names

variable (hP : P.IsPlain) {ext : Text} (hext : ext ∈ P.resolver.extensions)

include hP hext

/-- A name with an extension denotes a place again. -/
theorem exists_withName (hp : p ≠ .top) :
    ∃ q : Place, ∀ s : Site P, (s.path p).withName ((s.path p).name ++ ext) = .ok (s.path q) := by
  have hname : IsDown p.path.name := p.normal_path.isDown_name (Place.parts_ne_nil hp)
  have hdown := hname.append (hP.index.no_slash hext)
  refine ⟨p.parent.child _ hdown, fun s => ?_⟩
  have hpath : (s.path p).name = p.path.name := Place.name_below hp
  rw [hpath]
  exact Place.withName_below hp hdown

/-- The name of the project's own directory with an extension denotes no file. -/
theorem exists_withName_top (s : Site P) :
    ∃ x, (s.path .top).withName ((s.path .top).name ++ ext) = .ok x ∧ s.resolver.isFile x = false := by
  have hne : s.directory ≠ .top := fun h => s.ne_nil (congrArg Place.parts h)
  have hname : IsDown (s.directory.path.name ++ ext) :=
    (s.directory.normal_path.isDown_name (Place.parts_ne_nil hne)).append (hP.index.no_slash hext)
  rw [path_top]
  exact ⟨_, Place.withName_below hne hname, s.isFile_beside hname⟩

end Names

theorem mem_extensions {ext : Text} (h : ext ∈ P.settings.sourceExtensions) :
    ext ∈ P.resolver.extensions := Resolver.mem_extensions_of_mem (r := P.resolver) h

/-- The index files that are tried for a place. -/
theorem exists_indexCandidates (hP : P.IsPlain) (p : Place) :
    ∃ places : List Place, ∀ s : Site P,
      (if s.resolver.isDirectory (s.path p) then P.settings.sourceExtensions.map fun ext =>
        (.ok ((s.path p).join (P.settings.indexName ++ ext)) : Except NameFault Path) else []) =
      places.map fun q => .ok (s.path q) := by
  simp only [isDirectory_path]
  split
  · refine exists_places fun ext hext => ?_
    have hdown := hP.index ext (mem_extensions hext)
    exact ⟨p.child _ hdown, fun s => congrArg Except.ok (s.join_path hdown)⟩
  · exact ⟨[], fun _ => rfl⟩

/-- The files that are tried under the name of a place. -/
theorem exists_namedCandidates (hP : P.IsPlain) (hp : p ≠ .top) :
    ∃ places : List Place, ∀ s : Site P,
      (if P.settings.sourceExtensions.any (·.isSuffixOf (s.path p).name) then [.ok (s.path p)]
        else if (s.path p).name.isEmpty then []
        else P.settings.sourceExtensions.map fun ext => (s.path p).withName ((s.path p).name ++ ext)) =
      places.map fun q => .ok (s.path q) := by
  have hname (s : Site P) : (s.path p).name = p.path.name := Place.name_below hp
  simp only [hname]
  split
  · exact ⟨[p], fun _ => rfl⟩
  · split
    · exact ⟨[], fun _ => rfl⟩
    · refine exists_places fun ext hext => ?_
      obtain ⟨q, hq⟩ := exists_withName hP (mem_extensions hext) hp
      exact ⟨q, fun s => hname s ▸ hq s⟩

/-- The files that are tried for a place: some that are no files, and then places of the project, which
do not depend on the site. -/
theorem exists_candidates (hP : P.IsPlain) (p : Place) :
    ∃ places : List Place, ∀ s : Site P, ∃ outside,
      s.resolver.relativeCandidates (s.path p) = outside ++ places.map (fun q => .ok (s.path q)) ∧
        ∀ c ∈ outside, ∃ x, c = .ok x ∧ s.resolver.isFile x = false := by
  obtain ⟨indexPlaces, hindex⟩ := exists_indexCandidates hP p
  by_cases hp : p = .top
  · -- What is tried in front of the index files is the project's own directory, or stands next to it.
    subst hp
    refine ⟨indexPlaces, fun s => ⟨_, congrArg _ (hindex s), fun c hc => ?_⟩⟩
    split at hc
    · exact ⟨_, List.mem_singleton.1 hc, s.isFile_top⟩
    · split at hc
      · cases hc
      · obtain ⟨ext, hext, rfl⟩ := List.mem_map.1 hc
        exact exists_withName_top hP (mem_extensions hext) s
  · obtain ⟨namedPlaces, hnamed⟩ := exists_namedCandidates hP hp
    refine ⟨namedPlaces ++ indexPlaces, fun s => ⟨[], ?_, by simp⟩⟩
    rw [List.map_append, List.nil_append, ← hnamed s, ← hindex s]
    rfl

/-- The file that is found for a place is a place of the project, the same one at every site. -/
theorem exists_firstFile (hP : P.IsPlain) (p : Place) :
    ∃ file? : Option Place, ∀ s : Site P,
      s.resolver.firstFile (s.resolver.relativeCandidates (s.path p)) = .ok (file?.map s.path) := by
  obtain ⟨places, hplaces⟩ := exists_candidates hP p
  refine ⟨places.find? fun q => P.resolver.isFile q.path, fun s => ?_⟩
  obtain ⟨outside, hcandidates, hout⟩ := hplaces s
  rw [hcandidates, Resolver.firstFile_append hout, firstFile_map]

/-! ### The file of a package -/

/-- A manifest says the same at every site. -/
theorem entry_agrees (s : Site P) (manifest : Place) :
    Agree (· = ·) (Manifest.entry P.resolver.workspace manifest.path).result
      (Manifest.entry s.workspace (s.path manifest)).result := by
  have hentryOf (x y : Path) (members : List (Text × Json)) :
      Agree (· = ·) (Manifest.entryOf x members).result (Manifest.entryOf y members).result := by
    unfold Manifest.entryOf
    split <;> exact .ok rfl
  refine Logged.agree_bind (R := (· = ·)) ?_ fun members _ h => h ▸ hentryOf _ _ members
  show Agree _ (Manifest.read _ _) (Manifest.read _ _)
  have hread := s.readText_agrees manifest
  unfold Manifest.read
  generalize P.resolver.workspace.tree.readText _ _ = x, s.workspace.tree.readText _ _ = y at hread ⊢
  cases hread with
  | error e e' => rcases e with _ | (_ | _) <;> rcases e' with _ | (_ | _) <;> exact .error _ _
  | @ok source _ h =>
    subst h
    simp only
    cases Json.parse source with
    | error f => exact .error _ _
    | ok value =>
      cases value with
      | object members => exact .ok rfl
      | _ => exact .error _ _

/-- At two sites the manifest of a package names the same entry, which stays in the project. -/
theorem entry_agrees_and_stays (hself : P.SelfContained) (a b : Site P) (package : Place) :
    Agree (fun e e' => e = e' ∧ ∀ entry ∈ e, StaysInside package.parts entry)
      (Manifest.entry a.workspace ((a.path package).join "package.json")).result
      (Manifest.entry b.workspace ((b.path package).join "package.json")).result := by
  have hmanifests := hself.manifests package
  have hjoin : package.path.join "package.json" = (package.child _ isDown_manifest).path :=
    package.join_path isDown_manifest
  rw [a.join_path isDown_manifest, b.join_path isDown_manifest]
  rw [hjoin] at hmanifests
  have ha := a.entry_agrees (package.child _ isDown_manifest)
  have hb := b.entry_agrees (package.child _ isDown_manifest)
  generalize (Manifest.entry a.workspace _).result = x, (Manifest.entry b.workspace _).result = y
    at ha hb ⊢
  cases hentry : (Manifest.entry P.resolver.workspace (package.child _ isDown_manifest).path).result with
  | error e =>
    rw [hentry] at ha hb
    cases ha
    cases hb
    exact .error _ _
  | ok entry? =>
    rw [hentry] at ha hb
    cases ha with | ok ha => cases hb with | ok hb =>
    subst ha hb
    exact .ok ⟨rfl, fun entry h => hmanifests entry (h ▸ hentry)⟩

theorem Matches.isFile_eq {a b : Site P} {x y : Path} (h : Matches a b x y) :
    a.resolver.isFile x = b.resolver.isFile y := by
  rcases h with ⟨q, rfl, rfl⟩ | ⟨hx, hy⟩
  · rw [isFile_path, isFile_path]
  · rw [hx, hy]

/-- The script of a package is a place of the project, unless the package is the project itself. -/
theorem exists_script (hP : P.IsPlain) (a b : Site P) (package : Place) :
    ∃ x y, (a.path package).withName ((a.path package).name ++ P.settings.packageExtension) = .ok x ∧
      (b.path package).withName ((b.path package).name ++ P.settings.packageExtension) = .ok y ∧
      Matches a b x y := by
  have hext := P.resolver.packageExtension_mem
  by_cases htop : package = .top
  · subst htop
    obtain ⟨x, hx, hxfile⟩ := exists_withName_top hP hext a
    obtain ⟨y, hy, hyfile⟩ := exists_withName_top hP hext b
    exact ⟨x, y, hx, hy, .inr ⟨hxfile, hyfile⟩⟩
  · obtain ⟨q, hq⟩ := exists_withName hP hext htop
    exact ⟨_, _, hq a, hq b, .inl ⟨q, rfl, rfl⟩⟩

/-- A package has the same file at both sites, or none. -/
theorem packageFile_agrees (hP : P.IsPlain) (hself : P.SelfContained) {a b : Site P} (package : Place)
    {x y : Path} (hxy : Matches a b x y) :
    Agree (Option.Rel (SamePlace a b)) (a.resolver.packageFile (a.path package) x).result
      (b.resolver.packageFile (b.path package) y).result := by
  have hindex : IsDown (P.settings.indexName ++ P.settings.packageExtension) :=
    hP.index _ P.resolver.packageExtension_mem
  have hmanifest : a.resolver.isFile ((a.path package).join "package.json") =
      b.resolver.isFile ((b.path package).join "package.json") := by
    rw [join_path _ isDown_manifest, join_path _ isDown_manifest, isFile_path, isFile_path]
  simp only [Resolver.result_packageFile, Resolver.manifestEntry, Resolver.indexFile,
    settings_resolver, workspace_resolver, join_path _ hindex, hxy.isFile_eq, hmanifest]
  split
  · next hy =>
    rcases hxy with h | ⟨-, hfalse⟩
    · exact .ok (.some h)
    · rw [hfalse] at hy
      cases hy
  · refine Agree.map (R := fun e e' => e = e' ∧ ∀ entry ∈ e, StaysInside package.parts entry) ?_ ?_
    · split
      · exact entry_agrees_and_stays hself a b package
      · exact .ok ⟨rfl, by simp⟩
    · -- With an entry or without one, the file is at a place of the project.
      rintro (_ | entry) _ ⟨rfl, hstays⟩
      · simp only [isFile_path]
        split
        · exact .some ⟨_, rfl, rfl⟩
        · exact .none
      · simp only [normalize_join _ (hstays entry rfl)]
        exact .some ⟨_, rfl, rfl⟩

/-! ### What specifiers lead to -/

section Agree

variable (hP : P.IsPlain) {a b : Site P} {ia ib : Option Text} {specifier : Text}
  (hia : a.resolver.baseDirectory ia = a.path dir) (hib : b.resolver.baseDirectory ib = b.path dir)

include hP hia hib

/-- A path-like specifier leads to one place at both sites, or nowhere. -/
theorem resolveRelative_agrees (hs : StaysInside dir.parts specifier) :
    Agree (SamePlace a b) (a.resolver.resolveRelative specifier ia)
      (b.resolver.resolveRelative specifier ib) := by
  obtain ⟨file?, hfile⟩ := exists_firstFile hP (dir.follow specifier)
  simp only [Resolver.resolveRelative, hia, hib, normalize_join _ hs, hfile]
  cases file? with
  | none => exact .error _ _
  | some q => exact .ok ⟨q, rfl, rfl⟩

/-- A package specifier leads to one place at both sites, or nowhere. -/
theorem resolvePackage_agrees (hself : P.SelfContained)
    (hs : ∀ packages ∈ P.resolver.packageRoot? dir.path, StaysInside packages.parts specifier) :
    Agree (SamePlace a b) (a.resolver.resolvePackage specifier ia).result
      (b.resolver.resolvePackage specifier ib).result := by
  obtain ⟨root?, hroot, hroots⟩ := exists_packageRoot? hP dir
  unfold Resolver.resolvePackage
  simp only [hia, hib, normalize_path, hroots]
  cases root? with
  | none => exact .error _ _
  | some root =>
    have hstays : StaysInside root.parts specifier := hs root.path hroot
    simp only [Option.map_some, settings_resolver, normalize_join _ hstays]
    obtain ⟨x, y, hx, hy, hxy⟩ := exists_script hP a b (root.follow specifier)
    simp only [hx, hy]
    refine Logged.agree_bind (packageFile_agrees hP hself (root.follow specifier) hxy) ?_
    rintro _ _ (h | _)
    · exact .ok h
    · exact .error _ _

/-- A specifier of a file in a directory of the project leads to one place at both sites, or nowhere. -/
theorem resolve_agrees (hself : P.SelfContained) (hs : P.Contains dir.parts specifier) :
    Agree (SamePlace a b) (a.resolver.resolve specifier ia).result
      (b.resolver.resolve specifier ib).result := by
  unfold Resolver.resolve
  unfold Project.Contains at hs
  split at hs
  · next h =>
    rw [if_pos h, if_pos h]
    exact resolveRelative_agrees hP hia hib hs
  · next h =>
    rw [if_neg h, if_neg h]
    exact resolvePackage_agrees hP hia hib hself hs

end Agree

end Site

end ScriptBundle
