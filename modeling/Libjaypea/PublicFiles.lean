import Libjaypea.CachedResponse
import Libjaypea.CleanRoute
import Libjaypea.DispatchCalls
import Libjaypea.LexicalPath

/-!
# Files outside the public directory

`respond_http` looks up the public directory followed by the route without its
double dots.  That path stays in the directory exactly when a slash stands
between the two.  A file that is not served from the cache is opened under the
route itself, which no directory stands in front of.
-/

namespace Libjaypea

open Fuelled LexicalPath

namespace HttpApi

variable {σ : Type}

section Names

/-- Cutting at the first zero and dropping dots do not disturb each other. -/
theorem cString_cleanRoute (route : Bytes) :
    cString (cleanRoute route) = cleanRoute (cString route) := by
  induction route using cleanRoute.induct with
  | case1 => rfl
  | case2 byte =>
      rw [cleanRoute, cString_cons]
      split <;> rfl
  | case3 byte following rest dots ih =>
      obtain ⟨rfl, rfl⟩ := dots
      have nonzero : ch '.' ≠ 0 := by decide
      rw [cleanRoute, if_pos ⟨rfl, rfl⟩, ih, cString_cons, if_neg nonzero, cString_cons,
        if_neg nonzero, cString_cons, if_neg nonzero, cleanRoute, if_pos ⟨rfl, rfl⟩]
  | case4 byte following rest apart ih =>
      rw [cleanRoute, if_neg apart, cString_cons, cString_cons, ih]
      by_cases zero : byte = 0
      · rw [if_pos zero, if_pos zero]
        rfl
      · rw [if_neg zero, if_neg zero, cString_cons]
        by_cases ends : following = 0
        · rw [if_pos ends]
          rfl
        · rw [if_neg ends, cleanRoute, if_neg apart]

theorem cleanRoute_eq_nil_iff (route : Bytes) : cleanRoute route = [] ↔ route = [] := by
  rw [← List.head?_eq_none_iff, head?_cleanRoute, List.head?_eq_none_iff]

/-- A clean route does not go up. -/
theorem climbless_cleanRoute (route : Bytes) : Climbless (ch '/') (ch '.') (cleanRoute route) :=
  climbless_of_not_infix (not_infix_cleanRoute route)

/-- The name of a public directory: not empty, no dot at its end, no zero byte. -/
structure DirectoryName (directory : Bytes) : Prop where
  nonempty : directory ≠ []
  notDot : directory.getLast? ≠ some (ch '.')
  noZero : 0 ∉ directory

/-- The path that is passed on leads to the directory itself or below it. -/
def Kept (working : List Bytes) (directory path : Bytes) : Prop :=
  Inside (ch '/') (ch '.') working directory (cString path)

instance (working : List Bytes) (directory path : Bytes) :
    Decidable (Kept working directory path) :=
  inferInstanceAs (Decidable (Inside _ _ _ _ _))

/-- A slash separates the directory and the route, unless the route is empty. -/
def Separated (directory route : Bytes) : Prop :=
  cString route = [] ∨ (cString route).head? = some (ch '/') ∨
    directory.getLast? = some (ch '/')

variable {directory : Bytes}

theorem kept_cleanRoute_iff (working : List Bytes) (name : DirectoryName directory)
    (route : Bytes) :
    Kept working directory (directory ++ cleanRoute route) ↔ Separated directory route := by
  unfold Kept Separated
  rw [cString_append name.noZero, cString_cleanRoute,
    inside_append_iff working name.nonempty name.notDot (climbless_cleanRoute _),
    head?_cleanRoute, cleanRoute_eq_nil_iff]

/-- The index of a directory that is kept is kept. -/
theorem kept_index {working : List Bytes} (name : DirectoryName directory) {route : Bytes}
    (kept : Kept working directory (directory ++ route)) :
    Kept working directory (directory ++ route ++ bytes "/index.html") := by
  unfold Kept at kept ⊢
  by_cases zero : 0 ∈ directory ++ route
  · rw [cString_append_of_mem zero]
    exact kept
  · have whole : cString (directory ++ route) = directory ++ route := cString_of_noZero zero
    rw [cString_append zero]
    rw [whole] at kept
    apply kept.append_separator
    · intro empty
      exact name.nonempty (List.append_eq_nil_iff.mp empty).1
    · apply climbless_of_not_infix
      decide

end Names

section Touched

/-- The path that a call hands to the system. -/
def Event.path : Event → Option Bytes
  | .lstat path => some path
  | .opened path _ => some path
  | _ => none

/-- The paths that were looked up or opened, in their order. -/
def touched (world : World σ) : List Bytes :=
  world.events.filterMap Event.path

variable (system : System σ) (world : World σ)

@[simp]
theorem touched_lstat (path : Bytes) :
    touched (world.lstat system path).2 = touched world ++ [path] := by
  simp [touched, World.lstat, Event.path]

@[simp]
theorem touched_openFile (path : Bytes) :
    touched (world.openFile system path).2 = touched world ++ [path] := by
  simp [touched, World.openFile, Event.path]

@[simp]
theorem touched_read (fd : Int) : touched (world.read system fd).2 = touched world := by
  simp [touched, World.read, Event.path]

@[simp]
theorem touched_close (fd : Int) : touched (world.close system fd).2 = touched world := by
  simp [touched, World.close, Event.path]

@[simp]
theorem touched_send (fd : Int) (data : Bytes) :
    touched (world.send system fd data).2 = touched world := by
  simp [touched, World.send, Event.path]

@[simp]
theorem touched_respond (fd : Int) (response : HttpResponse) :
    touched (respond system world fd response).2 = touched world := by
  simp [touched, respond, Event.path]

variable {system world}

theorem touched_sendChunks {fd : Int} {data : Bytes} {fuel offset bufferSize : Nat}
    {complete : Bool} {after : World σ}
    (runs : sendChunks system fd data fuel offset bufferSize world = some (complete, after)) :
    touched after = touched world := by
  have sends (next : World σ) (data : Bytes) (same : touched next = touched world) :
      touched (next.send system fd data).2 = touched world :=
    (touched_send system next fd data).trans same
  exact sendChunks_keeps sends rfl runs

theorem touched_sendFile {fd fileFd : Int} {fuel : Nat} {complete : Bool} {after : World σ}
    (runs : sendFile system fd fileFd fuel world = some (complete, after)) :
    touched after = touched world := by
  have reads (next : World σ) (same : touched next = touched world) :
      touched (next.read system fileFd).2 = touched world :=
    (touched_read system next fileFd).trans same
  have sends (next : World σ) (data : Bytes) (same : touched next = touched world) :
      touched (next.send system fd data).2 = touched world :=
    (touched_send system next fd data).trans same
  exact sendFile_keeps reads sends rfl runs

theorem touched_fill {fileFd : Int} {fuel offset : Nat} {file filled : CachedFile}
    {complete : Bool} {after : World σ}
    (runs : fill system fileFd fuel offset file world = some (complete, filled, after)) :
    touched after = touched world := by
  have reads (next : World σ) (same : touched next = touched world) :
      touched (next.read system fileFd).2 = touched world :=
    (touched_read system next fileFd).trans same
  exact fill_keeps reads rfl runs

theorem touched_respondCachedFile {fd : Int} {response : HttpResponse} {cachedFile : CachedFile}
    {fuel : Nat} {result : Int} {after : World σ}
    (runs : respondCachedFile system world fd response cachedFile fuel = some (result, after)) :
    touched after = touched world := by
  unfold respondCachedFile at runs
  obtain ⟨⟨complete, last⟩, sends, equal⟩ := Option.map_eq_some_iff.mp runs
  cases equal
  exact (touched_sendChunks sends).trans (touched_respond system world fd _)

/-- A templated file is opened under the route of its view. -/
theorem touched_respondParameterizedView {fd : Int} {view : View} {response : HttpResponse}
    {fuel : Nat} {result : Int} {after : World σ}
    (runs : respondParameterizedView system world fd view response fuel = some (result, after)) :
    touched after = touched world ++ [view.route] := by
  unfold respondParameterizedView at runs
  have opens := touched_openFile system world view.route
  split at runs
  rename_i fileFd opened answered
  rw [answered] at opens
  split_ifs at runs
  · cases runs
    exact opens
  · have reads := touched_read system opened fileFd
    split at runs
    · rename_i later fails
      rw [fails] at reads
      cases runs
      exact reads.trans opens
    · rename_i buffer later answers
      rw [answers] at reads
      have closes := touched_close system later fileFd
      split at runs
      rename_i closed last closing
      rw [closing] at closes
      have kept : touched last = touched world ++ [view.route] := closes.trans (reads.trans opens)
      split_ifs at runs
      · cases runs
        exact kept
      · cases runs
        exact kept
      · obtain ⟨body, -, equal⟩ := Option.map_eq_some_iff.mp runs
        cases equal
        exact (touched_respond system last fd _).trans kept

theorem fst_respond_neg_iff {fd : Int} {response : HttpResponse} :
    (respond system world fd response).1 < 0 ↔
      (system.send fd (withContentLength response).str world.state).1 = true := by
  unfold respond
  cases failed : (system.send fd (withContentLength response).str world.state).1 with
  | true => simp [failed]
  | false => simp [failed]

/-- Any other file is opened under the route of its view, once its head is sent. -/
theorem touched_respondView {fd : Int} {view : View} {response : HttpResponse} {fuel : Nat}
    {result : Int} {after : World σ}
    (runs : respondView system world fd view response fuel = some (result, after)) :
    touched after = touched world ++
      if (system.send fd (withContentLength response).str world.state).1 then []
      else [view.route] := by
  unfold respondView at runs
  have responds := touched_respond system world fd response
  have sends := @fst_respond_neg_iff _ system world fd response
  split at runs
  rename_i sent headed answered
  rw [answered] at responds sends
  dsimp only at responds sends
  split_ifs at runs with fails
  · cases runs
    rw [if_pos (sends.mp fails), List.append_nil]
    exact responds
  · rw [if_neg fun failed => fails (sends.mpr failed)]
    have opens := touched_openFile system headed view.route
    split at runs
    rename_i fileFd opened opening
    rw [opening] at opens
    have kept : touched opened = touched world ++ [view.route] := by
      rw [opens, responds]
    split_ifs at runs
    · cases runs
      exact kept
    · obtain ⟨⟨complete, last⟩, files, equal⟩ := Option.map_eq_some_iff.mp runs
      have sendsFile := (touched_sendFile files).trans kept
      dsimp only at equal
      split_ifs at equal
      · cases equal
        exact sendsFile
      · cases equal
        exact (touched_close system last fileFd).trans sendsFile
      · cases equal
        exact (touched_close system last fileFd).trans sendsFile

/-- The path that is looked up and the index in it. -/
def Candidate (path candidate : Bytes) : Prop :=
  candidate = path ∨ candidate = path ++ bytes "/index.html"

theorem touched_resolve {path : Bytes} {found : Option (Bytes × Stat)} {after : World σ}
    (runs : resolve system world path = (found, after)) :
    ∃ looked, touched after = touched world ++ looked ∧ path ∈ looked ∧
      (∀ other ∈ looked, Candidate path other) ∧
        ∀ file stat, found = some (file, stat) → Candidate path file := by
  unfold resolve at runs
  have first := touched_lstat system world path
  split at runs
  · rename_i later missing
    rw [missing] at first
    cases runs
    refine ⟨[path], first, List.mem_singleton_self _, fun other member => ?_, ?_⟩
    · exact .inl (List.mem_singleton.mp member)
    · intro file stat none
      cases none
  · rename_i stat later present
    rw [present] at first
    by_cases isDirectory : stat.kind = .directory
    · rw [if_pos isDirectory] at runs
      have second := touched_lstat system later (path ++ bytes "/index.html")
      have both : ∀ last : World σ, touched last = touched later ++ [path ++ bytes "/index.html"] →
          touched last = touched world ++ [path, path ++ bytes "/index.html"] := by
        intro last equal
        rw [equal, first]
        simp
      have candidates : ∀ other ∈ [path, path ++ bytes "/index.html"], Candidate path other := by
        intro other member
        simpa [Candidate] using member
      split at runs
      · rename_i last missing
        rw [missing] at second
        cases runs
        refine ⟨_, both _ second, List.mem_cons_self, candidates, ?_⟩
        intro file stat none
        cases none
      · rename_i index last indexed
        rw [indexed] at second
        cases runs
        refine ⟨_, both _ second, List.mem_cons_self, candidates, fun file other regular => ?_⟩
        rw [Option.ite_none_right_eq_some] at regular
        obtain ⟨-, equal⟩ := regular
        cases equal
        exact .inr rfl
    · rw [if_neg isDirectory] at runs
      cases runs
      refine ⟨[path], first, List.mem_singleton_self _, fun other member => ?_,
        fun file other regular => ?_⟩
      · exact .inl (List.mem_singleton.mp member)
      · rw [Option.ite_none_right_eq_some] at regular
        obtain ⟨-, equal⟩ := regular
        cases equal
        exact .inl rfl

theorem touched_cacheFile {api cached : HttpApi σ} {path : Bytes} {stat : Stat} {fuel : Nat}
    {filled : Bool} {after : World σ}
    (runs : cacheFile system api world path stat fuel = some (filled, cached, after)) :
    touched after = touched world ++ [path] ∧
      ∃ file, KeyedList.get? cached.fileCache path = some file := by
  unfold cacheFile at runs
  dsimp only at runs
  have opens := touched_openFile system world path
  split_ifs at runs
  · cases runs
    exact ⟨opens, _, KeyedList.get?_set_self _ _ _⟩
  · obtain ⟨⟨complete, file, last⟩, fills, equal⟩ := Option.map_eq_some_iff.mp runs
    have filling := (touched_fill fills).trans opens
    dsimp only at equal
    split_ifs at equal
    · cases equal
      exact ⟨filling, _, KeyedList.get?_set_self _ _ _⟩
    · cases equal
      exact ⟨(touched_close system last _).trans filling, _, KeyedList.get?_set_self _ _ _⟩

section Serve

variable {api : HttpApi σ} {fd : Int} {view : View} {response : HttpResponse} {path : Bytes}
  {stat : Stat} {fuel : Nat} {result : Int} {after : World σ}

theorem touched_serve_cached {file : CachedFile}
    (cached : KeyedList.get? api.fileCache path = some file)
    (runs : serve system api world fd view response path stat fuel = some (result, after)) :
    touched after = touched world := by
  unfold serve at runs
  simp only [cached] at runs
  split_ifs at runs
  · obtain ⟨body, -, equal⟩ := Option.map_eq_some_iff.mp runs
    cases equal
    apply touched_respond
  · exact touched_respondCachedFile runs

/-- The route is opened: a templated file always, any other file behind a head
that is sent. -/
def RouteOpened (system : System σ) (world : World σ) (fd : Int) (response : HttpResponse)
    (path : Bytes) (stat : Stat) : Prop :=
  stat.size < bufferLimit ∧ isHtml path = true ∨
    (system.send fd (withContentLength response).str world.state).1 = false

theorem touched_serve_uncached (uncached : KeyedList.get? api.fileCache path = none)
    (runs : serve system api world fd view response path stat fuel = some (result, after)) :
    RouteOpened system world fd response path stat ∧
        touched after = touched world ++ [view.route] ∨
      ¬ RouteOpened system world fd response path stat ∧ touched after = touched world := by
  unfold serve at runs
  simp only [uncached] at runs
  unfold RouteOpened
  split_ifs at runs with templated
  · left
    have opens := touched_respondParameterizedView runs
    exact ⟨.inl ⟨by exact_mod_cast templated.1, templated.2⟩, opens⟩
  · have views := touched_respondView runs
    have other : ¬ (stat.size < bufferLimit ∧ isHtml path = true) := by
      rintro ⟨small, html⟩
      exact templated ⟨by exact_mod_cast small, html⟩
    cases failed : (system.send fd (withContentLength response).str world.state).1 with
    | false =>
        left
        rw [failed] at views
        exact ⟨.inr rfl, views⟩
    | true =>
        right
        rw [failed] at views
        refine ⟨?_, by simpa using views⟩
        rintro (small | sent)
        · exact other small
        · cases sent

/-- The file of the route is neither in the cache nor put there, and is opened
under the route. -/
def OpensRoute (system : System σ) (api : HttpApi σ) (world : World σ) (fd : Int) (view : View)
    (response : HttpResponse) : Prop :=
  view.method ≠ bytes "HEAD" ∧ ∃ path stat after,
    resolve system world (api.publicDirectory ++ cleanRoute view.route) =
        (some (path, stat), after) ∧
      api.CannotCache path stat ∧
        RouteOpened system after fd
          (response.setHeader (bytes "Content-Type") (contentType path)) path stat

theorem get?_dropModified_iff :
    KeyedList.get? (dropModified api path stat).fileCache path = none ↔ api.Outdated path stat := by
  constructor
  · intro dropped file found current
    rw [dropModified_of_current found current, found] at dropped
    cases dropped
  · exact get?_dropModified

/-- A file is taken into the cache where it is not there and there is room. -/
theorem takes_iff :
    (!KeyedList.contains (dropModified api path stat).fileCache path ∧
        (dropModified api path stat).fileCacheRemainingBytes > stat.size ∧
          !(dropModified api path stat).fileCacheMutex) ↔
      api.Outdated path stat ∧ ¬ api.CannotCache path stat := by
  rw [fileCacheRemainingBytes_dropModified, fileCacheMutex_dropModified,
    ← get?_dropModified_iff, CannotCache, ← get?_dropModified_iff]
  simp only [KeyedList.contains, Bool.not_eq_true', Option.isSome_eq_false_iff,
    Option.isNone_iff_eq_none]
  constructor
  · rintro ⟨absent, room, free⟩
    refine ⟨absent, ?_⟩
    rintro ⟨-, full | held⟩
    · omega
    · rw [free] at held
      cases held
  · rintro ⟨absent, takes⟩
    refine ⟨absent, ?_, ?_⟩
    · by_contra full
      exact takes ⟨absent, .inl (by omega)⟩
    · cases held : api.fileCacheMutex with
      | false => rfl
      | true => exact absurd ⟨absent, .inr held⟩ takes

theorem opensRoute_iff
    (found : resolve system world (api.publicDirectory ++ cleanRoute view.route) =
      (some (path, stat), after)) :
    OpensRoute system api world fd view response ↔
      view.method ≠ bytes "HEAD" ∧ api.CannotCache path stat ∧
        RouteOpened system after fd
          (response.setHeader (bytes "Content-Type") (contentType path)) path stat := by
  constructor
  · rintro ⟨body, other, otherStat, later, otherFound, cannot, opened⟩
    rw [found] at otherFound
    cases otherFound
    exact ⟨body, cannot, opened⟩
  · rintro ⟨body, cannot, opened⟩
    exact ⟨body, path, stat, after, found, cannot, opened⟩

/-- Behind the lookup the route is opened, or the file that was found, or nothing. -/
theorem touched_respondHttp_found {answer : Answer σ}
    (found : resolve system world (api.publicDirectory ++ cleanRoute view.route) =
      (some (path, stat), after))
    (runs : respondHttp system api world fd view response fuel = some answer) :
    ∃ opened, touched answer.world = touched after ++ opened ∧
      (OpensRoute system api world fd view response ∧ opened = [view.route] ∨
        ¬ OpensRoute system api world fd view response ∧ ∀ other ∈ opened, other = path) := by
  unfold respondHttp at runs
  rw [found] at runs
  rw [opensRoute_iff found]
  dsimp only at runs
  by_cases head : view.method = bytes "HEAD"
  · rw [if_pos head] at runs
    cases runs
    refine ⟨[], ?_, .inr ⟨fun opens => opens.1 head, by simp⟩⟩
    rw [List.append_nil]
    apply touched_respond
  rw [if_neg head] at runs
  split_ifs at runs with takes
  · have fits := takes_iff.mp takes
    obtain ⟨⟨filled, cached, last⟩, caches, later⟩ := Option.bind_eq_some_iff.mp runs
    obtain ⟨opens, entry, stored⟩ := touched_cacheFile caches
    refine ⟨[path], ?_, .inr ⟨fun opens => fits.2 opens.2.1, by simp⟩⟩
    dsimp only at later
    split_ifs at later
    · cases later
      exact opens
    · obtain ⟨⟨result, sent⟩, serves, done⟩ := Option.map_eq_some_iff.mp later
      cases done
      rw [← opens]
      exact touched_serve_cached stored serves
  · obtain ⟨⟨result, sent⟩, serves, done⟩ := Option.map_eq_some_iff.mp runs
    cases done
    cases entry : KeyedList.get? (dropModified api path stat).fileCache path with
    | some file =>
        refine ⟨[], ?_, .inr ⟨fun opens => ?_, by simp⟩⟩
        · rw [List.append_nil]
          exact touched_serve_cached entry serves
        · rw [get?_dropModified opens.2.1.1] at entry
          cases entry
    | none =>
        have outdated := get?_dropModified_iff.mp entry
        have cannot : api.CannotCache path stat := by
          by_contra fits
          exact takes (takes_iff.mpr ⟨outdated, fits⟩)
        rcases touched_serve_uncached entry serves with ⟨opened, paths⟩ | ⟨closed, paths⟩
        · exact ⟨[view.route], paths, .inl ⟨⟨head, cannot, opened⟩, rfl⟩⟩
        · refine ⟨[], ?_, .inr ⟨fun opens => closed opens.2.2, by simp⟩⟩
          rw [List.append_nil]
          exact paths

/-- The paths that serving a file touches: candidates for the clean route, and
the route itself. -/
theorem touched_respondHttp {answer : Answer σ}
    (runs : respondHttp system api world fd view response fuel = some answer) :
    ∃ looked opened, touched answer.world = touched world ++ looked ++ opened ∧
      api.publicDirectory ++ cleanRoute view.route ∈ looked ∧
      (∀ other ∈ looked, Candidate (api.publicDirectory ++ cleanRoute view.route) other) ∧
      (OpensRoute system api world fd view response ∧ opened = [view.route] ∨
        ¬ OpensRoute system api world fd view response ∧
          ∀ other ∈ opened, Candidate (api.publicDirectory ++ cleanRoute view.route) other) := by
  cases resolved : resolve system world (api.publicDirectory ++ cleanRoute view.route) with
  | mk found later =>
      obtain ⟨looked, equal, first, candidates, file⟩ := touched_resolve resolved
      cases found with
      | none =>
          unfold respondHttp at runs
          rw [resolved] at runs
          cases runs
          refine ⟨looked, [], ?_, first, candidates, .inr ⟨?_, by simp⟩⟩
          · rw [List.append_nil, ← equal]
            apply touched_respond
          · rintro ⟨-, path, stat, after, found, -⟩
            rw [resolved] at found
            cases found
      | some one =>
          obtain ⟨path, stat⟩ := one
          obtain ⟨opened, paths, opens⟩ := touched_respondHttp_found resolved runs
          refine ⟨looked, opened, ?_, first, candidates, ?_⟩
          · rw [paths, equal]
          · apply opens.imp_right
            rintro ⟨closed, only⟩
            refine ⟨closed, fun other member => ?_⟩
            rw [only other member]
            exact file path stat rfl

variable (working : List Bytes)

/-- What keeps `respond_http` in the public directory. -/
def Confines (working : List Bytes) (system : System σ) (api : HttpApi σ) (world : World σ)
    (fd : Int) (view : View) (response : HttpResponse) : Prop :=
  Separated api.publicDirectory view.route ∧
    (OpensRoute system api world fd view response →
      Kept working api.publicDirectory view.route)

/-- Every file that serving a view touches lies in the public directory. -/
theorem respondHttp_confined_iff {answer : Answer σ} (name : DirectoryName api.publicDirectory)
    (runs : respondHttp system api world fd view response fuel = some answer) :
    ∃ paths, touched answer.world = touched world ++ paths ∧
      ((∀ touchedPath ∈ paths, Kept working api.publicDirectory touchedPath) ↔
        Confines working system api world fd view response) := by
  obtain ⟨looked, opened, equal, first, candidates, outcome⟩ := touched_respondHttp runs
  have kept : Separated api.publicDirectory view.route → ∀ other,
      Candidate (api.publicDirectory ++ cleanRoute view.route) other →
        Kept working api.publicDirectory other := by
    intro separated other candidate
    have clean := (kept_cleanRoute_iff working name view.route).mpr separated
    rcases candidate with rfl | rfl
    · exact clean
    · exact kept_index name clean
  refine ⟨looked ++ opened, by rw [equal, List.append_assoc], ?_⟩
  constructor
  · intro confined
    constructor
    · exact (kept_cleanRoute_iff working name view.route).mp
        (confined _ (List.mem_append_left _ first))
    · intro opens
      rcases outcome with ⟨-, rfl⟩ | ⟨closed, -⟩
      · exact confined _ (List.mem_append_right _ (List.mem_singleton_self _))
      · exact absurd opens closed
  · rintro ⟨separated, route⟩ other member
    rcases List.mem_append.mp member with member | member
    · exact kept separated other (candidates other member)
    · rcases outcome with ⟨opens, rfl⟩ | ⟨-, others⟩
      · rw [List.mem_singleton.mp member]
        exact route opens
      · exact kept separated other (others other member)

end Serve

end Touched

section Requests

variable {services : Services} {api : HttpApi σ}

/-- What serving a file depends on. -/
def fileState (api : HttpApi σ) : Bytes × List (Bytes × CachedFile) × Int × Bool :=
  (api.publicDirectory, api.fileCache, api.fileCacheRemainingBytes, api.fileCacheMutex)

theorem fileState_openSession (id : Bytes) :
    fileState (openSession services api id) = fileState api := by
  unfold openSession
  split <;> rfl

theorem fileState_recordCall (key : Bytes) (route : Route σ) :
    fileState (recordCall services api key route) = fileState api := by
  unfold recordCall
  split <;> rfl

theorem fileState_checkHuman (id : Bytes) (kind : RequestResult) (request : JsonObject)
    (view : View) (response : HttpResponse) (route : Route σ) :
    fileState (checkHuman api id kind request view response route).1 = fileState api := by
  unfold checkHuman
  split_ifs <;> rfl

theorem fileState_gates (id : Bytes) (kind : RequestResult) (request : JsonObject) (view : View)
    (response : HttpResponse) (key : Bytes) (route : Route σ) :
    fileState (gates services api id kind request view response key route).1 = fileState api := by
  unfold gates
  split
  · rfl
  · dsimp only
    split
    · rfl
    · split
      · exact fileState_recordCall key route
      · rw [fileState_checkHuman, fileState_recordCall]

/-- Up to its response a request changes nothing that serving a file depends on. -/
theorem fileState_dispatchIn {state : σ} {kind : RequestResult} {request : JsonObject} {fuel : Nat}
    {dispatched : Dispatched σ}
    (runs : dispatchIn services api state kind request fuel = some dispatched) :
    fileState dispatched.api = fileState api := by
  by_cases gated : kind = .http
  · subst gated
    rw [dispatchIn_http] at runs
    cases runs
    rfl
  by_cases key : routeKey kind request = captchaRouteKey
  · rw [dispatchIn_captcha services api state fuel gated key] at runs
    cases runs
    rfl
  cases routed : KeyedList.get? api.routemap (routeKey kind request) with
  | none =>
      rw [dispatchIn_unrouted services api state fuel gated key routed] at runs
      cases runs
      rfl
  | some route =>
      have kept := @fileState_gates _ services api (request.str sessionKey) kind request
        (requestedView request) (sessionResponse request) (routeKey kind request) route
      cases passes : gates services api (request.str sessionKey) kind request
          (requestedView request) (sessionResponse request) (routeKey kind request) route with
      | mk after result =>
          rw [passes] at kept
          cases result with
          | error ending =>
              rw [dispatchIn_refused services api state fuel gated key routed passes] at runs
              cases runs
              exact kept
          | ok view =>
              rw [dispatchIn_passed services api state fuel gated key routed passes] at runs
              rw [(invoke_cases runs).1]
              exact kept

theorem fileState_dispatch {state : σ} {kind : RequestResult} {request : JsonObject} {fuel : Nat}
    {dispatched : Dispatched σ}
    (runs : dispatch services api state kind request fuel = some dispatched) :
    fileState dispatched.api = fileState api :=
  (fileState_dispatchIn runs).trans (fileState_openSession _)

theorem confines_congr {other : HttpApi σ} (same : fileState other = fileState api)
    (working : List Bytes) (system : System σ) (world : World σ) (fd : Int) (view : View)
    (response : HttpResponse) :
    Confines working system other world fd view response ↔
      Confines working system api world fd view response := by
  obtain ⟨directory, cache, remaining, held, sessions, routes⟩ := api
  obtain ⟨otherDirectory, otherCache, otherRemaining, otherHeld, otherSessions, otherRoutes⟩ := other
  cases same
  exact Iff.rfl

/-- A request that no file answers touches nothing, and needs to confine nothing. -/
theorem confined_of_untouched {working : List Bytes} {services : Services} {system : System σ}
    {api : HttpApi σ} {world last : World σ} {fd : Int} {kind : RequestResult}
    {request : JsonObject} {fuel : Nat} {dispatched : Dispatched σ}
    (dispatches : dispatch services api world.state kind request fuel = some dispatched)
    (elsewhere : ∀ view response, dispatched.ending ≠ .reply (.respondHttp view response))
    (untouched : touched last = touched world) :
    ∃ paths, touched last = touched world ++ paths ∧
      ((∀ path ∈ paths, Kept working api.publicDirectory path) ↔
        ∀ other view response,
          dispatch services api world.state kind request fuel = some other →
            other.ending = .reply (.respondHttp view response) →
              Confines working system api ⟨other.state, world.events⟩ fd view response) := by
  refine ⟨[], by rw [untouched, List.append_nil], ?_⟩
  constructor
  · intro _ other view response others ends
    rw [dispatches] at others
    cases others
    exact absurd ends (elsewhere view response)
  · intro _ path member
    cases member

/-- Every file that is touched while a request is served lies in the public
directory exactly when the view that is served, if any, is confined. -/
theorem onRead_confined_iff (working : List Bytes) (services : Services) (system : System σ)
    (api : HttpApi σ) (name : DirectoryName api.publicDirectory) (world : World σ) (fd : Int)
    (kind : RequestResult) (request : JsonObject) (fuel : Nat) (outcome : Outcome σ)
    (runs : onRead services system api world fd kind request fuel = some outcome) :
    ∃ paths, touched outcome.world = touched world ++ paths ∧
      ((∀ path ∈ paths, Kept working api.publicDirectory path) ↔
        ∀ dispatched view response,
          dispatch services api world.state kind request fuel = some dispatched →
            dispatched.ending = .reply (.respondHttp view response) →
              Confines working system api ⟨dispatched.state, world.events⟩ fd view response) := by
  unfold onRead at runs
  obtain ⟨dispatched, dispatches, later⟩ := Option.bind_eq_some_iff.mp runs
  have same := fileState_dispatch dispatches
  have directory : dispatched.api.publicDirectory = api.publicDirectory := congrArg Prod.fst same
  obtain ⟨after, state, calls, ending⟩ := dispatched
  cases ending with
  | threw thrown =>
      cases later
      apply confined_of_untouched dispatches
      · intro view response equal
        cases equal
      · rfl
  | reply reply =>
      obtain ⟨answer, performs, rfl⟩ := Option.map_eq_some_iff.mp later
      cases reply with
      | respond response =>
          cases performs
          apply confined_of_untouched dispatches
          · intro view other equal
            cases equal
          · exact touched_respond system ⟨state, world.events⟩ fd response
      | respond404 =>
          cases performs
          apply confined_of_untouched dispatches
          · intro view other equal
            cases equal
          · exact touched_respond system ⟨state, world.events⟩ fd _
      | respondHttp view response =>
          have performs : respondHttp system after ⟨state, world.events⟩ fd view response fuel =
            some answer := performs
          obtain ⟨paths, equal, confined⟩ :=
            respondHttp_confined_iff working (directory ▸ name) performs
          rw [directory, confines_congr same] at confined
          refine ⟨paths, equal, confined.trans ⟨fun confines => ?_, fun confines => ?_⟩⟩
          · intro other otherView otherResponse others ends
            rw [dispatches] at others
            cases others
            cases ends
            exact confines
          · exact confines _ view response dispatches rfl

end Requests

namespace Sample

/-- A public directory with one file, which `open` does not find. -/
def oneFile : System Unit where
  lstat path state := (if path = bytes "public/a.txt" then some ⟨.regular, 3, 0⟩ else none, state)
  openFile _ state := (-1, state)
  read _ _ state := (none, state)
  close _ state := (true, state)
  send _ _ state := (false, state)
  heap _ := 0

def fileRequest : Memory :=
  Memory.ofString (fun _ => 0) (bytes "GET /a.txt HTTP/1.1\r\n\r\n")

theorem directoryName_unrouted : DirectoryName unrouted.publicDirectory := by
  constructor <;> decide

/-- The request is served, without a cache, by opening a file of the root. -/
theorem served_fileRequest :
    ∃ request, ∃ outcome : Outcome Unit,
      Converges (parseHttpRequest fileRequest (fun _ _ => 0) 1 (.new .object)) (.http, request) ∧
      onRead services oneFile unrouted ⟨(), []⟩ 5 .http request 1 = some outcome ∧
      touched outcome.world = [bytes "public/a.txt", bytes "/a.txt"] := by
  have facts : (parseHttpRequest fileRequest (fun _ _ => 0) 1 (.new .object) 80).any
      (fun parsed => decide (parsed.1 = .http) &&
        (onRead services oneFile unrouted ⟨(), []⟩ 5 .http parsed.2 1).any
          fun outcome => decide (touched outcome.world = [bytes "public/a.txt", bytes "/a.txt"])) =
      true := by
    decide +kernel
  obtain ⟨⟨kind, request⟩, parses, holds⟩ := (Option.any_eq_true _ _).mp facts
  rw [Bool.and_eq_true, decide_eq_true_eq] at holds
  obtain ⟨rfl, served⟩ := holds
  obtain ⟨outcome, runs, paths⟩ := (Option.any_eq_true _ _).mp served
  exact ⟨request, outcome, ⟨80, parses⟩, runs, of_decide_eq_true paths⟩

end Sample

theorem onRead_confined_iff_fileRequest :
    ∃ request, ∃ outcome : Outcome Unit, ∃ paths,
      onRead Sample.services Sample.oneFile Sample.unrouted ⟨(), []⟩ 5 .http request 1 =
        some outcome ∧
      touched outcome.world = touched (⟨(), []⟩ : World Unit) ++ paths ∧
      ((∀ path ∈ paths, Kept [bytes "srv"] Sample.unrouted.publicDirectory path) ↔
        ∀ dispatched view response,
          dispatch Sample.services Sample.unrouted () .http request 1 = some dispatched →
            dispatched.ending = .reply (.respondHttp view response) →
              Confines [bytes "srv"] Sample.oneFile Sample.unrouted ⟨dispatched.state, []⟩ 5 view
                response) := by
  obtain ⟨request, outcome, -, runs, -⟩ := Sample.served_fileRequest
  obtain ⟨paths, equal, confined⟩ := onRead_confined_iff [bytes "srv"] Sample.services
    Sample.oneFile Sample.unrouted Sample.directoryName_unrouted ⟨(), []⟩ 5 .http request 1 outcome
    runs
  exact ⟨request, outcome, paths, runs, equal, confined⟩

/-- `GET /a.txt` looks up `public/a.txt` and then opens `/a.txt`. -/
theorem exists_not_kept :
    ∃ request, ∃ outcome : Outcome Unit,
      Converges (parseHttpRequest Sample.fileRequest (fun _ _ => 0) 1 (.new .object))
        (.http, request) ∧
      DirectoryName Sample.unrouted.publicDirectory ∧
      onRead Sample.services Sample.oneFile Sample.unrouted ⟨(), []⟩ 5 .http request 1 =
        some outcome ∧
      ∃ path ∈ touched outcome.world,
        ¬ Kept [bytes "srv"] Sample.unrouted.publicDirectory path := by
  obtain ⟨request, outcome, parses, runs, paths⟩ := Sample.served_fileRequest
  refine ⟨request, outcome, parses, Sample.directoryName_unrouted, runs, bytes "/a.txt", ?_, ?_⟩
  · rw [paths]
    exact List.mem_cons_of_mem _ (List.mem_singleton_self _)
  · decide

end HttpApi

end Libjaypea
