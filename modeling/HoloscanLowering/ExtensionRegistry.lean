import HoloscanLowering.ExtensionManager
/-! The extension registry of `GXFExtensionManager`: `load_extension` of an extension pointer
and of a library file (with the search of the library along the search-path environment
variables), `load_extensions_from_yaml`, `refresh`, `reset_context` and `is_extension_loaded`.
The manager caches every extension it loads, so that `refresh` can load them again into a new
GXF context. GXF, the dynamic loader, the file system and the process environment are a
`Loader`. A call that throws returns the exception together with the members as the throw left
them, as a C++ exception leaves them. -/
namespace HoloscanLowering
namespace ExtensionManager

/-- What the manager asks of GXF, of `dlopen`, of `std::filesystem` and of the environment:
whether `extension->getInfo` fails, and the `info.id` it gives; whether
`GxfLoadExtensionFromPointer` succeeds on a context holding the given extensions; `dlopen`
(`none` for `nullptr`); `dlsym` of the factory and its call (`none` when the symbol is missing
or the call fails, else the extension pointer it gave); `exists`, `getenv` (`none` for
`nullptr`), and the `path` operations `is_relative`, `filename`, `lexically_normal` and `/`. -/
structure Loader (τ ε η : Type) where
  infoFails : ε → Bool
  infoId : ε → τ
  loadsFromPointer : List τ → ε → Bool
  dlopen : String → Option η
  factory : η → Option (Option ε)
  fileExists : String → Bool
  getenv : String → Option String
  isRelative : String → Bool
  filename : String → String
  lexicallyNormal : String → String
  join : String → String → String

/-- The members of `GXFExtensionManager` that the loading reads and writes: `context_` (`none`
for `nullptr`, else the extensions GXF has registered in it), `extension_tids_` (a `std::set` of
which only membership is read), `loaded_extensions_` in loading order,
`loaded_extension_tids_map_` and `extension_handles_map_`. -/
structure Manager (τ ε η : Type) where
  context : Option (List τ)
  extensionTids : List τ
  loadedExtensions : List (τ × ε)
  loadedExtensionTidsMap : τ → Option ε
  extensionHandlesMap : String → Option η

/-- The exception `HOLOSCAN_GXF_CALL_FATAL` throws, by the GXF call that failed. -/
inductive Fatal
  | gxfLoadExtensionFromPointer
  deriving DecidableEq, Repr

variable {τ ε η : Type} [DecidableEq τ] (L : Loader τ ε η)

def Manager.create (context : Option (List τ)) : Manager τ ε η :=
  ⟨context,[],[],fun _ => none,fun _ => none⟩

def resetContext (context : Option (List τ)) (m : Manager τ ε η) : Manager τ ε η :=
  { m with extensionTids := [],context }

def isExtensionLoaded (m : Manager τ ε η) (tid : τ) : Bool := tid ∈ m.extensionTids

def gxfLoadExtensionFromPointer (m : Manager τ ε η) (e : ε) : Except Fatal Unit × Manager τ ε η :=
  match m.context with
  | some rt =>
    if L.loadsFromPointer rt e then (.ok (),{ m with context := some (rt ++ [L.infoId e]) })
    else (.error .gxfLoadExtensionFromPointer,m)
  | none => (.error .gxfLoadExtensionFromPointer,m)

/-- The push onto `loaded_extensions_` and `loaded_extension_tids_map_` of an extension whose id
the map does not hold yet. -/
def cacheExtension (tid : τ) (e : ε) (m : Manager τ ε η) : Manager τ ε η :=
  if (m.loadedExtensionTidsMap tid).isNone then
    { m with loadedExtensions := m.loadedExtensions ++ [(tid,e)],
             loadedExtensionTidsMap := Function.update m.loadedExtensionTidsMap tid (some e) }
  else m

def loadExtensionPtr (m : Manager τ ε η) : Option ε → Except Fatal Bool × Manager τ ε η
  | none => (.ok true,m)
  | some e =>
    if L.infoFails e then (.ok false,m)
    else if L.infoId e ∈ m.extensionTids then (.ok true,m)
    else
      let m := cacheExtension (L.infoId e) e m
      let r := gxfLoadExtensionFromPointer L { m with extensionTids := m.extensionTids.insert (L.infoId e) } e
      (r.1.map fun _ => true,r.2)

/-- The loop of `refresh` over `loaded_extensions_`, which returns at the first cached extension
whose info cannot be read. It walks the vector as the loop began: loading a cached extension
again pushes nothing onto it (`reloadCached_ok`). -/
def reloadCached : List (τ × ε) → Manager τ ε η → Except Fatal Unit × Manager τ ε η
  | [],m => (.ok (),m)
  | (tid,e) :: rest,m =>
    if tid ∈ m.extensionTids then reloadCached rest m
    else if L.infoFails e then (.ok (),m)
    else match loadExtensionPtr L m (some e) with
      | (.ok _,m) => reloadCached rest m
      | (.error f,m) => (.error f,m)

/-- `GXFExtensionManager::refresh`: `extension_tids_` becomes the extensions that
`GxfRuntimeInfo` lists in the context, then the cached extensions it lacks are loaded. -/
def refresh (m : Manager τ ε η) : Except Fatal Unit × Manager τ ε η :=
  match m.context with
  | none => (.ok (),m)
  | some rt => reloadCached L m.loadedExtensions { m with extensionTids := rt.foldl (·.insert ·) [] }

def openExtensionLibrary (m : Manager τ ε η) (filePath : String) : Option η :=
  match m.extensionHandlesMap filePath with
  | some handle => some handle
  | none => L.dlopen filePath

def kExtensionSearchPrefixes : List String := ["","gxf_extensions"]

/-- The locals `handle`, `file_name_key` and `found_extension` of the library search. -/
structure Search (η : Type) where
  handle : Option η
  fileNameKey : String
  foundExtension : Bool

/-- `base_names`: the file's relative path when it has a directory part, then its file name. -/
def baseNames (fileName : String) : List String :=
  (if L.isRelative fileName && L.lexicallyNormal (L.filename fileName) != L.lexicallyNormal fileName
    then [fileName] else []) ++ [L.filename fileName]

/-- The loop over `base_names`, whose `break` leaves this loop only. -/
def searchBaseNames (m : Manager τ ε η) (searchPath pfx : String) :
    List String → Search η → Search η
  | [],s => s
  | baseName :: rest,s =>
    let candidatePath := L.join (L.join searchPath pfx) baseName
    if L.fileExists candidatePath then
      match (if s.handle.isNone then openExtensionLibrary L m candidatePath else s.handle) with
      | some handle => ⟨some handle,candidatePath,true⟩
      | none => searchBaseNames m searchPath pfx rest s
    else searchBaseNames m searchPath pfx rest s

/-- The loop over `kExtensionSearchPrefixes`, which has no `break`. -/
def searchPrefixes (m : Manager τ ε η) (bases : List String) (searchPath : String) (s : Search η) :
    Search η :=
  kExtensionSearchPrefixes.foldl (fun s pfx => searchBaseNames L m searchPath pfx bases s) s

/-- The loop over `search_paths`, left when the extension was found. -/
def searchPaths (m : Manager τ ε η) (bases : List String) : List String → Search η → Search η
  | [],s => s
  | searchPath :: rest,s =>
    let s := searchPrefixes L m bases searchPath s
    if s.foundExtension then s else searchPaths m bases rest s

def tokens (str : String) (delimiter : Char) : List String :=
  ((tokenize str.toList [delimiter]).getD []).map String.mk

/-- The loop over `search_path_env_list`, left when the extension was found. -/
def searchEnvs (m : Manager τ ε η) (bases : List String) : List String → Search η → Search η
  | [],s => s
  | searchPathEnv :: rest,s =>
    let s := match L.getenv searchPathEnv with
      | some envValue => searchPaths L m bases (tokens envValue ':') s
      | none => s
    if s.foundExtension then s else searchEnvs m bases rest s

/-- The handle of `load_extension(file_name, ...)`: the file itself, else the search along the
variables of `search_path_envs`. -/
def searchLibrary (m : Manager τ ε η) (fileName searchPathEnvs : String) : Search η :=
  let s : Search η := ⟨openExtensionLibrary L m fileName,fileName,false⟩
  if s.handle.isNone && !searchPathEnvs.isEmpty then
    searchEnvs L m (baseNames L fileName) (tokens searchPathEnvs ',') s
  else s

/-- `GXFExtensionManager::load_extension(file_name, no_error_message, search_path_envs)`; the
flag changes only what is logged. -/
def loadExtensionFile (m : Manager τ ε η) (fileName searchPathEnvs : String) :
    Except Fatal Bool × Manager τ ε η :=
  if fileName.isEmpty || fileName == "null" then (.ok true,m)
  else if (m.extensionHandlesMap fileName).isSome then (.ok true,m)
  else
    let s := searchLibrary L m fileName searchPathEnvs
    match s.handle with
    | none => (.ok false,m)
    | some handle =>
      match L.factory handle with
      | none => (.ok false,m)
      | some extension =>
        match loadExtensionPtr L m extension with
        | (.ok true,m) =>
          (.ok true,{ m with extensionHandlesMap := Function.update m.extensionHandlesMap s.fileNameKey (some handle) })
        | r => r

def isStreamPlayback (fileName : String) : Bool :=
  "libgxf_stream_playback.so".toList <:+: fileName.toList

/-- `GXFExtensionManager::load_extensions_from_yaml` over the file names under `key`: its
`catch` turns the exception of a fatal GXF call into `false`. -/
def loadExtensionsFromYaml (searchPathEnvs : String) :
    List String → Manager τ ε η → Bool × Manager τ ε η
  | [],m => (true,m)
  | fileName :: rest,m =>
    if isStreamPlayback fileName then loadExtensionsFromYaml searchPathEnvs rest m
    else match loadExtensionFile L m fileName searchPathEnvs with
      | (.ok true,m) => loadExtensionsFromYaml searchPathEnvs rest m
      | (_,m) => (false,m)

inductive Request (τ ε : Type)
  | loadExtension (extension : Option ε)
  | loadExtensionFile (fileName searchPathEnvs : String)
  | loadExtensionsFromYaml (fileNames : List String) (searchPathEnvs : String)
  | refresh
  | resetContext (context : Option (List τ))

def Manager.handle (m : Manager τ ε η) : Request τ ε → Manager τ ε η
  | .loadExtension e => (loadExtensionPtr L m e).2
  | .loadExtensionFile fileName searchPathEnvs => (loadExtensionFile L m fileName searchPathEnvs).2
  | .loadExtensionsFromYaml fileNames searchPathEnvs => (loadExtensionsFromYaml L searchPathEnvs fileNames m).2
  | .refresh => (refresh L m).2
  | .resetContext context => resetContext context m

def Manager.handleAll (m : Manager τ ε η) (requests : List (Request τ ε)) : Manager τ ε η :=
  requests.foldl (Manager.handle L) m

/-! ### The cache over every sequence of calls -/

/-- The cache that `refresh` loads from: one entry per id, `loaded_extension_tids_map_` indexing
`loaded_extensions_`, and each entry under the id its extension reports when read. -/
structure Cached (m : Manager τ ε η) : Prop where
  nodup : (m.loadedExtensions.map Prod.fst).Nodup
  map_iff : ∀ t e, m.loadedExtensionTidsMap t = some e ↔ (t,e) ∈ m.loadedExtensions
  info : ∀ p ∈ m.loadedExtensions, L.infoId p.2 = p.1 ∧ L.infoFails p.2 = false

def SameCache (m m' : Manager τ ε η) : Prop :=
  m'.loadedExtensions = m.loadedExtensions ∧ m'.loadedExtensionTidsMap = m.loadedExtensionTidsMap

omit [DecidableEq τ] in
theorem SameCache.refl (m : Manager τ ε η) : SameCache m m := ⟨rfl,rfl⟩

omit [DecidableEq τ] in
theorem SameCache.trans {m₁ m₂ m₃ : Manager τ ε η} (h₁ : SameCache m₁ m₂) (h₂ : SameCache m₂ m₃) :
    SameCache m₁ m₃ :=
  ⟨h₂.1.trans h₁.1,h₂.2.trans h₁.2⟩

variable {L}

omit [DecidableEq τ] in
theorem Cached.of_sameCache {m m' : Manager τ ε η} (hc : Cached L m) (h : SameCache m m') : Cached L m' := by
  obtain ⟨h₁,h₂⟩ := h
  exact ⟨h₁ ▸ hc.nodup,h₁ ▸ h₂ ▸ hc.map_iff,h₁ ▸ hc.info⟩

omit [DecidableEq τ] in
theorem gxfLoadExtensionFromPointer_sameCache (m : Manager τ ε η) (e : ε) :
    SameCache m (gxfLoadExtensionFromPointer L m e).2 := by
  unfold gxfLoadExtensionFromPointer
  split
  · split <;> exact ⟨rfl,rfl⟩
  · exact SameCache.refl m

theorem Cached.cacheExtension {m : Manager τ ε η} {e : ε} (hc : Cached L m) (hf : L.infoFails e = false) :
    Cached L (cacheExtension (L.infoId e) e m) := by
  unfold HoloscanLowering.ExtensionManager.cacheExtension
  split
  · rename_i hnone
    have hnot : ∀ e', (L.infoId e,e') ∉ m.loadedExtensions := fun e' h' => by
      simp [(hc.map_iff _ e').mpr h'] at hnone
    refine ⟨?_,fun t e' => ?_,fun p hp => ?_⟩
    · rw [List.map_append,List.nodup_append]
      exact ⟨hc.nodup,List.nodup_singleton _,by simpa using hnot⟩
    · by_cases ht : t = L.infoId e
      · subst ht
        simp only [Function.update_same,Option.some.injEq,List.mem_append,List.mem_singleton,
          Prod.mk.injEq,true_and,hnot e',false_or]
        exact eq_comm
      · simp [Function.update_noteq ht,hc.map_iff,ht]
    · rcases List.mem_append.mp hp with hp | hp
      · exact hc.info p hp
      · obtain rfl := List.mem_singleton.mp hp
        exact ⟨rfl,hf⟩
  · exact hc

theorem Cached.loadExtensionPtr {m : Manager τ ε η} (hc : Cached L m) (e : Option ε) :
    Cached L (loadExtensionPtr L m e).2 := by
  rcases e with _ | e
  · exact hc
  simp only [HoloscanLowering.ExtensionManager.loadExtensionPtr]
  split_ifs with hf
  · exact hc
  · exact hc
  · exact ((hc.cacheExtension (by simpa using hf)).of_sameCache ⟨rfl,rfl⟩).of_sameCache
      (gxfLoadExtensionFromPointer_sameCache _ _)

theorem Cached.reloadCached {m : Manager τ ε η} (hc : Cached L m) (l : List (τ × ε)) :
    Cached L (reloadCached L l m).2 := by
  induction l generalizing m with
  | nil => exact hc
  | cons p l ih =>
    simp only [HoloscanLowering.ExtensionManager.reloadCached]
    split_ifs
    · exact ih hc
    · exact hc
    · have hl := hc.loadExtensionPtr (some p.2)
      split <;> rename_i h <;> rw [h] at hl
      · exact ih hl
      · exact hl

theorem Cached.refresh {m : Manager τ ε η} (hc : Cached L m) : Cached L (refresh L m).2 := by
  unfold HoloscanLowering.ExtensionManager.refresh
  split
  · exact hc
  · refine Cached.reloadCached ?_ _
    exact hc.of_sameCache ⟨rfl,rfl⟩

theorem Cached.loadExtensionFile {m : Manager τ ε η} (hc : Cached L m) (fileName searchPathEnvs : String) :
    Cached L (loadExtensionFile L m fileName searchPathEnvs).2 := by
  unfold HoloscanLowering.ExtensionManager.loadExtensionFile
  split_ifs
  · exact hc
  · exact hc
  · dsimp only
    split
    · exact hc
    · split
      · exact hc
      · rename_i extension _
        have hl := hc.loadExtensionPtr extension
        split
        · rename_i h
          rw [h] at hl
          exact hl.of_sameCache ⟨rfl,rfl⟩
        · exact hl

theorem Cached.loadExtensionsFromYaml {m : Manager τ ε η} (hc : Cached L m) (searchPathEnvs : String)
    (fileNames : List String) : Cached L (loadExtensionsFromYaml L searchPathEnvs fileNames m).2 := by
  induction fileNames generalizing m with
  | nil => exact hc
  | cons f fs ih =>
    simp only [HoloscanLowering.ExtensionManager.loadExtensionsFromYaml]
    split_ifs
    · exact ih hc
    · have hl := hc.loadExtensionFile f searchPathEnvs
      split <;> rename_i h <;> rw [h] at hl
      · exact ih hl
      · exact hl

theorem Cached.handle {m : Manager τ ε η} (hc : Cached L m) (r : Request τ ε) : Cached L (m.handle L r) := by
  cases r with
  | loadExtension e => exact hc.loadExtensionPtr e
  | loadExtensionFile f envs => exact hc.loadExtensionFile f envs
  | loadExtensionsFromYaml fs envs => exact hc.loadExtensionsFromYaml envs fs
  | refresh => exact hc.refresh
  | resetContext c => exact hc.of_sameCache ⟨rfl,rfl⟩

theorem Cached.handleAll {m : Manager τ ε η} (hc : Cached L m) (requests : List (Request τ ε)) :
    Cached L (m.handleAll L requests) := by
  induction requests generalizing m with
  | nil => exact hc
  | cons r rs ih => exact ih (hc.handle r)

omit [DecidableEq τ] in
theorem Cached.create (context : Option (List τ)) : Cached L (Manager.create context : Manager τ ε η) :=
  ⟨List.nodup_nil,fun _ _ => by simp [Manager.create],by simp [Manager.create]⟩

/-- Over every sequence of calls from the constructor, whether each call returned or threw,
`loaded_extensions_` holds one entry per id, `loaded_extension_tids_map_` indexes it exactly, and
each entry is under the id its extension reports. -/
theorem handleAll_cached (context : Option (List τ)) (requests : List (Request τ ε)) :
    Cached L ((Manager.create context : Manager τ ε η).handleAll L requests) :=
  (Cached.create context).handleAll requests

/-! ### `refresh` loads the whole cache -/

def Manager.holds (m : Manager τ ε η) (tid : τ) : Prop := tid ∈ m.context.getD []

def Synced (m : Manager τ ε η) : Prop := ∀ t ∈ m.extensionTids, m.holds t

omit [DecidableEq τ] in
theorem Synced.of_sameCache {m m' : Manager τ ε η} (hs : Synced m) (hctx : m'.context = m.context)
    (htids : m'.extensionTids = m.extensionTids) : Synced m' := by
  intro t ht
  simpa [Manager.holds,hctx] using hs t (htids ▸ ht)

theorem mem_foldl_insert {t : τ} (l acc : List τ) : t ∈ l.foldl (·.insert ·) acc ↔ t ∈ acc ∨ t ∈ l := by
  induction l generalizing acc with
  | nil => simp
  | cons x xs ih => simp [ih,List.mem_insert_iff,or_assoc,or_left_comm]

theorem loadExtensionPtr_of_cached {m m' : Manager τ ε η} {t : τ} {e : ε} {b : Bool} (hc : Cached L m)
    (hp : (t,e) ∈ m.loadedExtensions) (ht : t ∉ m.extensionTids) (h : loadExtensionPtr L m (some e) = (.ok b,m')) :
    SameCache m m' ∧ m'.extensionTids = m.extensionTids.insert t ∧ ∀ u, m'.holds u ↔ m.holds u ∨ u = t := by
  obtain ⟨hid,hf⟩ := hc.info _ hp
  have hcache : cacheExtension t e m = m := by
    simp [cacheExtension,(hc.map_iff t e).mpr hp]
  simp only [HoloscanLowering.ExtensionManager.loadExtensionPtr,hf,hid,if_neg ht,hcache,
    Bool.false_eq_true,if_false] at h
  unfold gxfLoadExtensionFromPointer at h
  split at h
  · rename_i rt hctx
    dsimp only at hctx
    split_ifs at h
    · cases h
      exact ⟨⟨rfl,rfl⟩,rfl,fun u => by simp [Manager.holds,hctx,hid]⟩
    · cases h
  · cases h

theorem reloadCached_ok {l : List (τ × ε)} {m m' : Manager τ ε η} (hc : Cached L m)
    (hl : ∀ p ∈ l, p ∈ m.loadedExtensions) (hs : Synced m) (h : reloadCached L l m = (.ok (),m')) :
    SameCache m m' ∧ Synced m' ∧ (∀ t ∈ m.extensionTids, t ∈ m'.extensionTids) ∧
      ∀ p ∈ l, p.1 ∈ m'.extensionTids := by
  induction l generalizing m with
  | nil => cases h; exact ⟨SameCache.refl _,hs,fun _ => id,by simp⟩
  | cons p l ih =>
    obtain ⟨t,e⟩ := p
    have hp := hl _ (List.mem_cons_self _ _)
    have hl' := fun q hq => hl q (List.mem_cons_of_mem _ hq)
    simp only [HoloscanLowering.ExtensionManager.reloadCached] at h
    split_ifs at h with ht hf
    · obtain ⟨h₁,h₂,h₃,h₄⟩ := ih hc hl' hs h
      exact ⟨h₁,h₂,h₃,List.forall_mem_cons.mpr ⟨h₃ t ht,h₄⟩⟩
    · simp [(hc.info _ hp).2] at hf
    · split at h
      · rename_i m₁ h₁
        obtain ⟨hsame,htids,hholds⟩ := loadExtensionPtr_of_cached hc hp ht h₁
        have hs₁ : Synced m₁ := fun u hu => by
          rw [htids,List.mem_insert_iff] at hu
          exact (hholds u).mpr (hu.elim .inr fun hu => .inl (hs u hu))
        obtain ⟨h₂,h₃,h₄,h₅⟩ := ih (hc.of_sameCache hsame) (hsame.1 ▸ hl') hs₁ h
        refine ⟨hsame.trans h₂,h₃,fun u hu => h₄ u (htids ▸ List.mem_insert_of_mem hu),
          List.forall_mem_cons.mpr ⟨h₄ t (htids ▸ List.mem_insert_self t _),h₅⟩⟩
      · cases h

theorem refresh_ok {m m' : Manager τ ε η} {rt : List τ} (hc : Cached L m) (hctx : m.context = some rt)
    (h : refresh L m = (.ok (),m')) :
    SameCache m m' ∧ Synced m' ∧ ∀ p ∈ m.loadedExtensions, p.1 ∈ m'.extensionTids := by
  simp only [HoloscanLowering.ExtensionManager.refresh,hctx] at h
  have hc' : Cached L { m with context := some rt,extensionTids := rt.foldl (·.insert ·) [] } :=
    hc.of_sameCache ⟨rfl,rfl⟩
  obtain ⟨h₁,h₂,-,h₄⟩ := reloadCached_ok hc' (fun _ => id)
    (fun t ht => by simpa [Manager.holds,mem_foldl_insert] using ht) h
  exact ⟨h₁,h₂,h₄⟩

/-- After any sequence of calls, `reset_context` with a new context and a `refresh` that returns
load every cached extension into that context: `refresh` never stops at its early return, the
cache is kept, and `is_extension_loaded` holds for each cached id, which the new context has
registered. -/
theorem reset_refresh_loads_cache {context : Option (List τ)} {requests : List (Request τ ε)}
    {rt : List τ} {m' : Manager τ ε η}
    (h : refresh L (resetContext (some rt) ((Manager.create context).handleAll L requests)) = (.ok (),m')) :
    m'.loadedExtensions = ((Manager.create context : Manager τ ε η).handleAll L requests).loadedExtensions ∧
      ∀ p ∈ m'.loadedExtensions, isExtensionLoaded m' p.1 = true ∧ m'.holds p.1 := by
  have hc : Cached L (resetContext (some rt) ((Manager.create context).handleAll L requests)) :=
    ((Cached.create context).handleAll requests).of_sameCache ⟨rfl,rfl⟩
  obtain ⟨⟨h₁,-⟩,h₂,h₃⟩ := refresh_ok hc rfl h
  refine ⟨h₁,fun p hp => ?_⟩
  have ht := h₃ p (h₁ ▸ hp)
  exact ⟨by simpa [isExtensionLoaded] using ht,h₂ _ ht⟩

def plainLoader : Loader Nat Nat Nat :=
  ⟨fun _ => false,id,fun _ _ => true,fun _ => none,fun _ => none,fun _ => false,fun _ => none,
    fun _ => true,id,id,(· ++ "/" ++ ·)⟩

theorem plain_reset_refresh_reloads : ∃ m' : Manager Nat Nat Nat,
    refresh plainLoader (resetContext (some [])
      ((Manager.create (some [])).handleAll plainLoader [.loadExtension (some 7)])) = (.ok (),m') ∧
    m'.loadedExtensions = [(7,7)] ∧ isExtensionLoaded m' 7 = true ∧ m'.holds 7 := by
  refine ⟨_,rfl,rfl,?_⟩
  have h := @reset_refresh_loads_cache Nat Nat Nat _ plainLoader (some []) [.loadExtension (some 7)] [] _ rfl
  exact h.2 (7,7) (by rw [h.1]; decide)

/-! ### The library search -/

variable (L)

/-- The first of `paths` that exists and that `open_extension_library` opens. -/
def firstOpened (m : Manager τ ε η) (paths : List String) : Option η :=
  paths.findSome? fun path => if L.fileExists path then openExtensionLibrary L m path else none

def pathCandidates (bases : List String) (searchPath : String) : List String :=
  kExtensionSearchPrefixes.flatMap fun pfx => bases.map (L.join (L.join searchPath pfx))

/-- The candidate paths of the search, in the order the loops walk them: each variable of
`search_path_envs` that is set, each path of its value, each prefix, each base name. -/
def candidatePaths (bases searchPathEnvs : List String) : List String :=
  searchPathEnvs.flatMap fun env => match L.getenv env with
    | some envValue => (tokens envValue ':').flatMap (pathCandidates L bases)
    | none => []

omit [DecidableEq τ] in
theorem searchBaseNames_handle (m : Manager τ ε η) (searchPath pfx : String) (bases : List String)
    (s : Search η) :
    (searchBaseNames L m searchPath pfx bases s).handle =
      s.handle.or (firstOpened L m (bases.map (L.join (L.join searchPath pfx)))) := by
  induction bases with
  | nil => simp [searchBaseNames,firstOpened]
  | cons b bs ih =>
    by_cases hb : L.fileExists (L.join (L.join searchPath pfx) b)
    · simp only [searchBaseNames,if_pos hb,List.map_cons,firstOpened,List.findSome?_cons]
      cases hs : s.handle with
      | some h => simp
      | none =>
        simp only [Option.isNone_none,if_true,Option.none_or]
        cases ho : openExtensionLibrary L m (L.join (L.join searchPath pfx) b) with
        | some h => rfl
        | none => simpa [hs,firstOpened] using ih
    · simpa [searchBaseNames,hb,firstOpened] using ih

omit [DecidableEq τ] in
theorem searchBaseNames_cases (m : Manager τ ε η) (searchPath pfx : String) (bases : List String)
    (s : Search η) : searchBaseNames L m searchPath pfx bases s = s ∨
      ∃ h key, searchBaseNames L m searchPath pfx bases s = ⟨some h,key,true⟩ := by
  induction bases with
  | nil => exact .inl rfl
  | cons b bs ih =>
    by_cases hb : L.fileExists (L.join (L.join searchPath pfx) b)
    · simp only [searchBaseNames,if_pos hb]
      split
      · exact .inr ⟨_,_,rfl⟩
      · exact ih
    · simpa only [searchBaseNames,if_neg hb] using ih

omit [DecidableEq τ] in
theorem searchBaseNames_of_handle (m : Manager τ ε η) (searchPath pfx : String) (bases : List String)
    {s : Search η} {h : η} (hs : s.handle = some h) :
    searchBaseNames L m searchPath pfx bases s =
      match (bases.map (L.join (L.join searchPath pfx))).find? L.fileExists with
      | some c => ⟨some h,c,true⟩
      | none => s := by
  induction bases with
  | nil => rfl
  | cons b bs ih =>
    by_cases hb : L.fileExists (L.join (L.join searchPath pfx) b)
    · simp [searchBaseNames,hb,hs]
    · simpa [searchBaseNames,hb] using ih

omit [DecidableEq τ] in
theorem searchBaseNames_found (m : Manager τ ε η) (searchPath pfx : String) (bases : List String)
    {s : Search η} (hs : s.foundExtension = s.handle.isSome) :
    (searchBaseNames L m searchPath pfx bases s).foundExtension =
      (searchBaseNames L m searchPath pfx bases s).handle.isSome := by
  rcases searchBaseNames_cases L m searchPath pfx bases s with h | ⟨_,_,h⟩ <;> rw [h]
  · exact hs
  · rfl

omit [DecidableEq τ] in
theorem foldl_searchBaseNames (m : Manager τ ε η) (searchPath : String) (bases pfxs : List String)
    (s : Search η) (hs : s.foundExtension = s.handle.isSome) :
    let s' := pfxs.foldl (fun s pfx => searchBaseNames L m searchPath pfx bases s) s
    s'.handle = s.handle.or (firstOpened L m (pfxs.flatMap fun pfx => bases.map (L.join (L.join searchPath pfx)))) ∧
      s'.foundExtension = s'.handle.isSome := by
  induction pfxs generalizing s with
  | nil => exact ⟨by simp [firstOpened],hs⟩
  | cons p ps ih =>
    obtain ⟨h₁,h₂⟩ := ih _ (searchBaseNames_found L m searchPath p bases hs)
    refine ⟨?_,h₂⟩
    simp only [List.foldl_cons,List.flatMap_cons] at h₁ ⊢
    rw [h₁,searchBaseNames_handle,firstOpened,firstOpened,firstOpened,List.findSome?_append,Option.or_assoc]

omit [DecidableEq τ] in
theorem searchPrefixes_handle (m : Manager τ ε η) (bases : List String) (searchPath : String)
    (s : Search η) (hs : s.foundExtension = s.handle.isSome) :
    (searchPrefixes L m bases searchPath s).handle = s.handle.or (firstOpened L m (pathCandidates L bases searchPath)) ∧
      (searchPrefixes L m bases searchPath s).foundExtension = (searchPrefixes L m bases searchPath s).handle.isSome :=
  foldl_searchBaseNames L m searchPath bases kExtensionSearchPrefixes s hs

omit [DecidableEq τ] in
theorem stop_or_continue (m : Manager τ ε η) {s s₁ : Search η} {first rest : List String}
    {next : Search η → Search η} (h₁ : s₁.handle = s.handle.or (firstOpened L m first))
    (h₂ : s₁.foundExtension = s₁.handle.isSome) (ih : (next s₁).handle = s₁.handle.or (firstOpened L m rest)) :
    (if s₁.foundExtension then s₁ else next s₁).handle = s.handle.or (firstOpened L m (first ++ rest)) := by
  have hor : s.handle.or (firstOpened L m (first ++ rest)) = s₁.handle.or (firstOpened L m rest) := by
    rw [h₁,firstOpened,firstOpened,firstOpened,List.findSome?_append,Option.or_assoc]
  rw [hor]
  split_ifs with hf
  · obtain ⟨h,hh⟩ := Option.isSome_iff_exists.mp (h₂ ▸ hf)
    rw [hh]
    rfl
  · exact ih

omit [DecidableEq τ] in
theorem searchPaths_handle (m : Manager τ ε η) (bases searchPathList : List String) (s : Search η)
    (hs : s.foundExtension = s.handle.isSome) :
    (searchPaths L m bases searchPathList s).handle =
      s.handle.or (firstOpened L m (searchPathList.flatMap (pathCandidates L bases))) ∧
    (searchPaths L m bases searchPathList s).foundExtension = (searchPaths L m bases searchPathList s).handle.isSome := by
  induction searchPathList generalizing s with
  | nil => exact ⟨by simp [searchPaths,firstOpened],hs⟩
  | cons sp sps ih =>
    obtain ⟨h₁,h₂⟩ := searchPrefixes_handle L m bases sp s hs
    simp only [searchPaths,List.flatMap_cons]
    refine ⟨stop_or_continue L m h₁ h₂ (ih _ h₂).1,?_⟩
    split_ifs
    exacts [h₂,(ih _ h₂).2]

omit [DecidableEq τ] in
theorem searchEnvs_handle (m : Manager τ ε η) (bases envs : List String) (s : Search η)
    (hs : s.foundExtension = s.handle.isSome) :
    (searchEnvs L m bases envs s).handle = s.handle.or (firstOpened L m (candidatePaths L bases envs)) := by
  induction envs generalizing s with
  | nil => simp [searchEnvs,candidatePaths,firstOpened]
  | cons env envs ih =>
    simp only [searchEnvs,candidatePaths,List.flatMap_cons]
    cases L.getenv env with
    | some envValue =>
      obtain ⟨h₁,h₂⟩ := searchPaths_handle L m bases (tokens envValue ':') s hs
      exact stop_or_continue L m h₁ h₂ (ih _ h₂)
    | none => exact stop_or_continue L m (by simp [firstOpened]) hs (ih _ hs)

omit [DecidableEq τ] in
/-- `load_extension(file_name, ...)` opens the file itself if it can, else the first candidate
path, in the order of the variables of `search_path_envs`, their paths, the prefixes and the
base names, that exists and opens: the `break`s of the nested loops stop the search there and
nowhere else. -/
theorem searchLibrary_handle (m : Manager τ ε η) (fileName searchPathEnvs : String) :
    (searchLibrary L m fileName searchPathEnvs).handle =
      (openExtensionLibrary L m fileName).or (if searchPathEnvs.isEmpty then none else
        firstOpened L m (candidatePaths L (baseNames L fileName) (tokens searchPathEnvs ','))) := by
  unfold searchLibrary
  cases ho : openExtensionLibrary L m fileName with
  | some h => simp
  | none =>
    by_cases he : searchPathEnvs.isEmpty
    · simp [he]
    · simp only [he,Option.isNone_none,Bool.not_false,Bool.and_true,if_true,if_false,Option.none_or]
      simpa using searchEnvs_handle L m _ _ ⟨none,fileName,false⟩ rfl

omit [DecidableEq τ] in
/-- The loop over the prefixes has no `break`: once the prefix `""` has found a library, an
existing candidate under `gxf_extensions` keeps the handle and overwrites `file_name_key`, so
the key need not be the path opened. -/
theorem searchPrefixes_key_overwritten (m : Manager τ ε η) (bases : List String) (searchPath : String)
    (s : Search η) {h : η} {key c : String} (h₀ : searchBaseNames L m searchPath "" bases s = ⟨some h,key,true⟩)
    (hc : (bases.map (L.join (L.join searchPath "gxf_extensions"))).find? L.fileExists = some c) :
    searchPrefixes L m bases searchPath s = ⟨some h,c,true⟩ := by
  simp only [searchPrefixes,kExtensionSearchPrefixes,List.foldl_cons,List.foldl_nil,h₀]
  rw [searchBaseNames_of_handle L m searchPath _ bases rfl,hc]

def twoCopiesLoader : Loader Nat Nat Nat :=
  ⟨fun _ => false,id,fun _ _ => true,
    fun path => if path = "/opt/libx.so" then some 1 else if path = "/opt/gxf_extensions/libx.so" then some 2 else none,
    fun handle => some (some handle),
    fun path => path = "/opt/libx.so" || path = "/opt/gxf_extensions/libx.so",
    fun var => if var = "EXT_PATH" then some "/opt" else none,
    fun _ => true,id,id,fun a b => if b = "" then a else a ++ "/" ++ b⟩

/-- Loading `libx.so` along `EXT_PATH` opens `/opt/libx.so` and records it under
`/opt/gxf_extensions/libx.so`; loading that other library afterwards returns `true` and loads
nothing, and its extension is not loaded. -/
theorem twoCopiesLoader_key_overwritten :
    searchBaseNames twoCopiesLoader (Manager.create (some [])) "/opt" "" ["libx.so"] ⟨none,"libx.so",false⟩ =
        ⟨some 1,"/opt/libx.so",true⟩ ∧
      (["libx.so"].map (twoCopiesLoader.join (twoCopiesLoader.join "/opt" "gxf_extensions"))).find?
        twoCopiesLoader.fileExists = some "/opt/gxf_extensions/libx.so" ∧
      searchPrefixes twoCopiesLoader (Manager.create (some [])) ["libx.so"] "/opt" ⟨none,"libx.so",false⟩ =
        ⟨some 1,"/opt/gxf_extensions/libx.so",true⟩ ∧
      let m₁ := (loadExtensionFile twoCopiesLoader (Manager.create (some [])) "libx.so" "EXT_PATH").2
      loadExtensionFile twoCopiesLoader m₁ "/opt/gxf_extensions/libx.so" "" = (.ok true,m₁) ∧
        isExtensionLoaded m₁ 1 = true ∧ isExtensionLoaded m₁ 2 = false :=
  ⟨rfl,rfl,searchPrefixes_key_overwritten twoCopiesLoader _ _ _ _ rfl rfl,rfl,rfl,rfl⟩

end ExtensionManager
end HoloscanLowering
