import Libjaypea.CachedResponse
import Libjaypea.Transitions
import Mathlib.Data.Int.Order.Basic

/-!
# The budget of the file cache

Requests are served one after the other, each with the disk as it finds it.
What the counter and the entries do not account for is lost to the cache: it
never comes back, and it grows exactly when an entry is dropped because its
file was modified.
-/

namespace Libjaypea

open Transitions

namespace HttpApi

variable {σ : Type}

/-- The product is an `int`. -/
def setFileCacheSize (api : HttpApi σ) (megabytes : Int) : Option (HttpApi σ) :=
  if -2 ^ 31 ≤ megabytes * 1024 * 1024 ∧ megabytes * 1024 * 1024 < 2 ^ 31 then
    some { api with fileCacheRemainingBytes := megabytes * 1024 * 1024 }
  else none

/-- A request, the system as it finds it, and what `try_lock` finds. -/
structure Serving (σ : Type) where
  system : System σ
  state : σ
  fileCacheMutex : Bool
  fd : Int
  view : View
  response : HttpResponse
  fuel : Nat

def serveRequest (api : HttpApi σ) (serving : Serving σ) : Option (HttpApi σ) :=
  (respondHttp serving.system { api with fileCacheMutex := serving.fileCacheMutex }
    ⟨serving.state, []⟩ serving.fd serving.view serving.response serving.fuel).map Answer.api

/-- The regular file to which `lstat` leads a path. -/
inductive Leads (system : System σ) (state : σ) (path : Bytes) : Bytes → Stat → Prop
  | file {stat : Stat} (found : (system.lstat path state).1 = some stat)
      (regular : stat.kind = .regular) : Leads system state path path stat
  | index {directory stat : Stat} (found : (system.lstat path state).1 = some directory)
      (isDirectory : directory.kind = .directory)
      (indexed : (system.lstat (path ++ bytes "/index.html") (system.lstat path state).2).1 =
        some stat)
      (regular : stat.kind = .regular) :
      Leads system state path (path ++ bytes "/index.html") stat

theorem leads_iff {system : System σ} {world : World σ} {path found : Bytes} {stat : Stat} :
    Leads system world.state path found stat ↔
      (resolve system world path).1 = some (found, stat) := by
  have first : world.lstat system path =
      ((system.lstat path world.state).1, (world.lstat system path).2) := rfl
  unfold resolve
  rw [first]
  constructor
  · rintro (⟨answer, regular⟩ | ⟨answer, isDirectory, indexed, regular⟩)
    · simp [answer, regular]
    · simp only [answer, isDirectory, if_true]
      have second : (world.lstat system path).2.lstat system (path ++ bytes "/index.html") =
          (some stat, ((world.lstat system path).2.lstat system
            (path ++ bytes "/index.html")).2) := Prod.ext indexed rfl
      rw [second]
      simp [regular]
  · intro resolved
    cases answer : (system.lstat path world.state).1 with
    | none => simp [answer] at resolved
    | some stat =>
        simp only [answer] at resolved
        by_cases isDirectory : stat.kind = .directory
        · simp only [isDirectory, if_true] at resolved
          split at resolved
          · cases resolved
          · rename_i index after indexed
            rw [Option.ite_none_right_eq_some] at resolved
            obtain ⟨regular, equal⟩ := resolved
            cases equal
            exact .index answer isDirectory (congrArg Prod.fst indexed) regular
        · simp only [isDirectory, if_false, Option.ite_none_right_eq_some] at resolved
          obtain ⟨regular, equal⟩ := resolved
          cases equal
          exact .file answer regular

/-- The counter is the size less the entries, and is not negative. -/
def Accounted (size : Int) (api : HttpApi σ) : Prop :=
  api.fileCacheRemainingBytes = size - KeyedList.total CachedFile.dataLength api.fileCache ∧
    0 ≤ api.fileCacheRemainingBytes

/-- No entry that holds bytes was made of an earlier version of the requested file. -/
def Unmodified (api : HttpApi σ) (serving : Serving σ) : Prop :=
  serving.view.method ≠ bytes "HEAD" → ∀ path stat,
    Leads serving.system serving.state (api.publicDirectory ++ cleanRoute serving.view.route)
      path stat →
    ∀ file, KeyedList.get? api.fileCache path = some file →
      file.modified = stat.mtime ∨ file.dataLength = 0

/-- The bytes of the size that neither the counter nor an entry holds. -/
def lost (size : Int) (api : HttpApi σ) : Int :=
  size - KeyedList.total CachedFile.dataLength api.fileCache - api.fileCacheRemainingBytes

/-- The bytes of the entry that a request for the file drops. -/
def staleBytes (api : HttpApi σ) (path : Bytes) (stat : Stat) : Nat :=
  match KeyedList.get? api.fileCache path with
  | none => 0
  | some file => if stat.mtime ≠ file.modified then file.dataLength else 0

/-- A new entry, and the counter without its bytes. -/
def store (api : HttpApi σ) (path : Bytes) (file : CachedFile) : HttpApi σ :=
  { api with
    fileCache := KeyedList.set api.fileCache path file
    fileCacheRemainingBytes := api.fileCacheRemainingBytes - file.dataLength }

theorem fill_dataLength {system : System σ} {fileFd : Int} {fuel offset : Nat}
    {file filled : CachedFile} {world after : World σ} {complete : Bool}
    (fills : fill system fileFd fuel offset file world = some (complete, filled, after)) :
    filled.dataLength = file.dataLength := by
  induction fuel generalizing offset file world with
  | zero => cases fills
  | succ fuel ih =>
      rw [fill_succ] at fills
      split_ifs at fills
      · split at fills
        · cases fills
          rfl
        · split_ifs at fills
          · cases fills
            rfl
          · rw [ih fills]
            rfl
      · cases fills
        rfl

theorem cacheFile_stores {system : System σ} {api after : HttpApi σ} {world last : World σ}
    {path : Bytes} {stat : Stat} {fuel : Nat} {filled : Bool}
    (runs : cacheFile system api world path stat fuel = some (filled, after, last)) :
    ∃ file, file.dataLength = stat.size ∧ after = store api path file := by
  unfold cacheFile at runs
  dsimp only at runs
  split_ifs at runs
  · cases runs
    exact ⟨_, rfl, rfl⟩
  · obtain ⟨⟨complete, cachedFile, read⟩, fills, stored⟩ := Option.map_eq_some_iff.mp runs
    have length : cachedFile.dataLength = stat.size := fill_dataLength fills
    dsimp only at stored
    split_ifs at stored
    all_goals
      cases stored
      exact ⟨cachedFile, length, by rw [store, length]⟩

/-- What a request does to the cache: nothing when it finds no file or asks
for the head alone. -/
theorem respondHttp_cache {system : System σ} {api : HttpApi σ} {world : World σ} {fd : Int}
    {view : View} {response : HttpResponse} {fuel : Nat} {answer : Answer σ}
    (runs : respondHttp system api world fd view response fuel = some answer) :
    (answer.api = api ∧ (view.method = bytes "HEAD" ∨ ∀ path stat,
      ¬ Leads system world.state (api.publicDirectory ++ cleanRoute view.route) path stat)) ∨
    ∃ path stat, view.method ≠ bytes "HEAD" ∧
      Leads system world.state (api.publicDirectory ++ cleanRoute view.route) path stat ∧
      (answer.api = dropModified api path stat ∨
        ∃ file, KeyedList.get? (dropModified api path stat).fileCache path = none ∧
          (file.dataLength : Int) < api.fileCacheRemainingBytes ∧
          answer.api = store (dropModified api path stat) path file) := by
  unfold respondHttp at runs
  dsimp only at runs
  split at runs
  · rename_i after missing
    cases runs
    refine .inl ⟨rfl, .inr fun path stat leads => ?_⟩
    rw [leads_iff, missing] at leads
    cases leads
  · rename_i path stat after found
    have leads : Leads system world.state (api.publicDirectory ++ cleanRoute view.route)
        path stat := leads_iff.mpr (congrArg Prod.fst found)
    by_cases head : view.method = bytes "HEAD"
    · rw [if_pos head] at runs
      cases runs
      exact .inl ⟨rfl, .inl head⟩
    · rw [if_neg head] at runs
      refine .inr ⟨path, stat, head, leads, ?_⟩
      split_ifs at runs with takes
      · obtain ⟨⟨filled, cached, last⟩, caches, later⟩ := Option.bind_eq_some_iff.mp runs
        obtain ⟨file, length, rfl⟩ := cacheFile_stores caches
        obtain ⟨absent, room, -⟩ := takes
        rw [fileCacheRemainingBytes_dropModified] at room
        refine .inr ⟨file, ?_, by rw [length]; exact room, ?_⟩
        · simpa [KeyedList.contains] using absent
        · dsimp only at later
          split_ifs at later
          · cases later
            rfl
          · obtain ⟨served, -, rfl⟩ := Option.map_eq_some_iff.mp later
            rfl
      · obtain ⟨served, -, rfl⟩ := Option.map_eq_some_iff.mp runs
        exact .inl rfl

section Entries

variable {api : HttpApi σ} {path : Bytes} {stat : Stat}

theorem nodup_dropModified (distinct : (KeyedList.keys api.fileCache).Nodup) :
    (KeyedList.keys (dropModified api path stat).fileCache).Nodup := by
  unfold dropModified
  split
  · exact distinct
  · split
    · exact distinct.sublist (KeyedList.keys_erase_sublist _ path)
    · exact distinct

/-- Dropping an entry gives nothing back. -/
theorem lost_dropModified (size : Int) (distinct : (KeyedList.keys api.fileCache).Nodup) :
    lost size (dropModified api path stat) = lost size api + staleBytes api path stat := by
  unfold dropModified staleBytes
  cases found : KeyedList.get? api.fileCache path with
  | none => simp
  | some file =>
      by_cases modified : stat.mtime ≠ file.modified
      · have total := KeyedList.total_erase CachedFile.dataLength distinct found
        simp only [modified, ne_eq, not_false_eq_true, if_true, lost]
        omega
      · simp [modified]

theorem lost_store (size : Int) {file : CachedFile}
    (absent : KeyedList.get? api.fileCache path = none) :
    lost size (store api path file) = lost size api := by
  have total := KeyedList.total_set_of_notMem CachedFile.dataLength
    (KeyedList.get?_eq_none_iff.mp absent) file
  simp only [lost, store, total]
  omega

theorem staleBytes_eq_zero_iff :
    staleBytes api path stat = 0 ↔
      ∀ file, KeyedList.get? api.fileCache path = some file →
        file.modified = stat.mtime ∨ file.dataLength = 0 := by
  unfold staleBytes
  cases found : KeyedList.get? api.fileCache path with
  | none => simp
  | some file =>
      by_cases modified : stat.mtime ≠ file.modified
      · simp [modified, Ne.symm modified]
      · simp [not_not.mp modified]

end Entries

theorem Leads.unique {system : System σ} {state : σ} {path first second : Bytes}
    {firstStat secondStat : Stat} (one : Leads system state path first firstStat)
    (other : Leads system state path second secondStat) :
    first = second ∧ firstStat = secondStat := by
  let world : World σ := ⟨state, []⟩
  have same := (@leads_iff _ _ world _ _ _).mp one
  rw [(@leads_iff _ _ world _ _ _).mp other] at same
  cases same
  exact ⟨rfl, rfl⟩

section Steps

variable {api next : HttpApi σ} {serving : Serving σ}

theorem unmodified_iff {path : Bytes} {stat : Stat}
    (fetches : serving.view.method ≠ bytes "HEAD")
    (leads : Leads serving.system serving.state
      (api.publicDirectory ++ cleanRoute serving.view.route) path stat) :
    Unmodified api serving ↔ staleBytes api path stat = 0 := by
  rw [staleBytes_eq_zero_iff]
  constructor
  · exact fun unmodified => unmodified fetches path stat leads
  · intro current _ other otherStat otherLeads
    obtain ⟨rfl, rfl⟩ := leads.unique otherLeads
    exact current

theorem nodup_serveRequest (serves : serveRequest api serving = some next)
    (distinct : (KeyedList.keys api.fileCache).Nodup) :
    (KeyedList.keys next.fileCache).Nodup := by
  obtain ⟨answer, runs, rfl⟩ := Option.map_eq_some_iff.mp serves
  rcases respondHttp_cache runs with ⟨same, -⟩ | ⟨path, stat, -, -, same | ⟨file, -, -, same⟩⟩
  · rw [same]
    exact distinct
  · rw [same]
    exact nodup_dropModified distinct
  · rw [same]
    apply KeyedList.nodup_keys_set
    exact nodup_dropModified distinct

theorem lost_serveRequest (size : Int) (serves : serveRequest api serving = some next)
    (distinct : (KeyedList.keys api.fileCache).Nodup) :
    ∃ stale : Nat, lost size next = lost size api + stale ∧
      (stale = 0 ↔ Unmodified api serving) := by
  obtain ⟨answer, runs, rfl⟩ := Option.map_eq_some_iff.mp serves
  rcases respondHttp_cache runs with ⟨same, idle⟩ |
    ⟨path, stat, fetches, leads, same | ⟨file, absent, -, same⟩⟩
  · refine ⟨0, by rw [same]; simp [lost], fun _ fetches path stat leads => ?_, fun _ => rfl⟩
    rcases idle with head | missing
    · exact absurd head fetches
    · exact absurd leads (missing path stat)
  · refine ⟨staleBytes api path stat, ?_, (unmodified_iff fetches leads).symm⟩
    rw [same]
    exact lost_dropModified size distinct
  · refine ⟨staleBytes api path stat, ?_, (unmodified_iff fetches leads).symm⟩
    rw [same, lost_store size absent]
    exact lost_dropModified size distinct

/-- An entry is stored only while the counter exceeds its bytes. -/
theorem remaining_serveRequest (serves : serveRequest api serving = some next) :
    next.fileCacheRemainingBytes ≤ api.fileCacheRemainingBytes ∧
      (0 ≤ api.fileCacheRemainingBytes → 0 ≤ next.fileCacheRemainingBytes) := by
  obtain ⟨answer, runs, rfl⟩ := Option.map_eq_some_iff.mp serves
  rcases respondHttp_cache runs with ⟨same, -⟩ |
    ⟨path, stat, -, -, same | ⟨file, -, room, same⟩⟩
  · rw [same]
    exact ⟨Int.le_refl _, id⟩
  · rw [same, fileCacheRemainingBytes_dropModified]
    exact ⟨Int.le_refl _, id⟩
  · rw [same]
    simp only [store, fileCacheRemainingBytes_dropModified] at room ⊢
    omega

end Steps

section Runs

variable {start last : HttpApi σ} {servings : List (Serving σ)}

theorem remaining_run (run : Run serveRequest anything start servings last) :
    last.fileCacheRemainingBytes ≤ start.fileCacheRemainingBytes ∧
      (0 ≤ start.fileCacheRemainingBytes → 0 ≤ last.fileCacheRemainingBytes) := by
  induction run with
  | nil state => exact ⟨Int.le_refl _, id⟩
  | cons _ serves _ ih =>
      obtain ⟨less, stays⟩ := remaining_serveRequest serves
      exact ⟨Int.le_trans ih.1 less, fun holds => ih.2 (stays holds)⟩

/-- Nothing is lost exactly when no run of requests meets a modified file. -/
theorem lost_run_iff (size : Int) (run : Run serveRequest anything start servings last)
    (distinct : (KeyedList.keys start.fileCache).Nodup) :
    lost size last = lost size start ↔ Run serveRequest Unmodified start servings last := by
  have preserved : ∀ (first : HttpApi σ) serving next, (KeyedList.keys first.fileCache).Nodup →
      serveRequest first serving = some next → (KeyedList.keys next.fileCache).Nodup :=
    fun _ _ _ distinct serves => nodup_serveRequest serves distinct
  refine run.keeps_measure_iff preserved ?_ ?_ distinct
  · intro first serving next distinct serves
    obtain ⟨stale, risen, -⟩ := lost_serveRequest size serves distinct
    rw [risen]
    omega
  · intro first serving next distinct serves
    obtain ⟨stale, risen, current⟩ := lost_serveRequest size serves distinct
    rw [← current, risen]
    omega

/-- The budget is accounted for exactly when the size is not negative and no
request meets an entry of an earlier version of its file. -/
theorem accounted_iff {api : HttpApi σ} (empty : api.fileCache = []) {megabytes : Int}
    (configured : api.setFileCacheSize megabytes = some start)
    (run : Run serveRequest anything start servings last) :
    Accounted (megabytes * 1024 * 1024) last ↔
      0 ≤ megabytes ∧ Run serveRequest Unmodified start servings last := by
  unfold setFileCacheSize at configured
  rw [Option.ite_none_right_eq_some, Option.some.injEq] at configured
  obtain ⟨-, rfl⟩ := configured
  obtain ⟨below, positive⟩ := remaining_run run
  have nothing : lost (megabytes * 1024 * 1024)
      { api with fileCacheRemainingBytes := megabytes * 1024 * 1024 } = 0 := by
    simp [lost, empty, KeyedList.total]
  rw [← lost_run_iff (megabytes * 1024 * 1024) run (by simp [empty, KeyedList.keys]), nothing]
  dsimp only at below positive
  unfold Accounted lost
  omega

/-- The file `public/a.txt` as it is at some time, the only one. -/
def revision (content : Bytes) (mtime : Int) : FileSystem where
  lstat path := if path = bytes "public/a.txt" then some ⟨.regular, content.length, mtime⟩ else none
  contents path := if path = bytes "public/a.txt" then .readable content else .refused
  sized := by
    intro path stat other found kind readable
    by_cases known : path = bytes "public/a.txt"
    · simp only [known, if_true, Option.some.injEq, FileContents.readable.injEq] at found readable
      rw [← found, ← readable]
    · simp [known] at found

/-- `GET /a.txt` -/
def fetch (content : Bytes) (mtime : Int) : Serving (Option Bytes) :=
  ⟨(revision content mtime).system fun _ => 0, none, false, 5, FileSystem.sampleView, .default, 3⟩

theorem accounted_iff_fetch : ∃ start last : HttpApi (Option Bytes),
    (FileSystem.sampleApi 0).setFileCacheSize 1 = some start ∧
      Run serveRequest anything start [fetch (bytes "hi") 0] last ∧
      Accounted (1 * 1024 * 1024) last := by
  have configured : (FileSystem.sampleApi 0).setFileCacheSize 1 =
      some (FileSystem.sampleApi (1 * 1024 * 1024)) := rfl
  have serves : ∃ last, serveRequest (FileSystem.sampleApi (1 * 1024 * 1024))
      (fetch (bytes "hi") 0) = some last := ⟨_, rfl⟩
  obtain ⟨last, serves⟩ := serves
  refine ⟨_, last, configured, .single trivial serves, ?_⟩
  apply (accounted_iff rfl configured (.single trivial serves)).mpr
  refine ⟨by decide, .single ?_ serves⟩
  rintro - path stat - file found
  cases found

/-- A file of two bytes is cached, modified and cached again. -/
theorem not_accounted_modified : ∃ start last : HttpApi (Option Bytes),
    (FileSystem.sampleApi 0).setFileCacheSize 1 = some start ∧
      Run serveRequest anything start [fetch (bytes "hi") 0, fetch (bytes "hello") 1] last ∧
      ¬ Accounted (1 * 1024 * 1024) last := by
  refine ⟨_, _, rfl, .cons trivial rfl (.cons trivial rfl (.nil _)), ?_⟩
  rintro ⟨counted, -⟩
  revert counted
  decide +kernel

end Runs

end HttpApi

end Libjaypea
