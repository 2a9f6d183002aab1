import Libjaypea.FileServing

/-!
# What a client sees of a file

A file system that does not change gives the system calls their answers.  The
client sees the status, the content type and the bytes of the body.  What it
sees of a file served from the cache depends on the file at the cleaned path;
what it sees of a file that is not cached depends on the file at the route as
the client wrote it.
-/

namespace Libjaypea

open Fuelled

/-- What opening a path and reading it gives. -/
inductive FileContents
  /-- `open` fails. -/
  | refused
  /-- `read` fails, as it does for a directory. -/
  | unreadable
  | readable (content : Bytes)

structure FileSystem where
  lstat : Bytes → Option Stat
  contents : Bytes → FileContents
  /-- `lstat` knows the size of a regular file. -/
  sized : ∀ {path stat content}, lstat path = some stat → stat.kind = .regular →
    contents path = .readable content → stat.size = content.length

/-- The system calls on a file system; the state is what the open file has left to read. -/
def FileSystem.system (files : FileSystem) (heap : Memory) : System (Option Bytes) where
  lstat path left := (files.lstat path, left)
  openFile path left :=
    match files.contents path with
    | .refused => (-1, left)
    | .unreadable => (3, none)
    | .readable content => (3, some content)
  read _ count left := (left.map (List.take count), left.map (List.drop count))
  close _ left := (true, left)
  send _ _ left := (false, left)
  heap := heap

/-- Status, content type and body of the response that a client receives. -/
structure Observed where
  status : Bytes
  contentType : Option Bytes
  body : Bytes
  deriving DecidableEq

namespace Observed

def ofResponse (response : HttpResponse) : Observed :=
  ⟨response.status, KeyedList.get? response.headers (bytes "Content-Type"), response.body⟩

def append (observed : Observed) (data : Bytes) : Observed :=
  { observed with body := observed.body ++ data }

/-- Everything behind the first response is part of its body. -/
def observe : Option Observed → Event → Option Observed
  | none, .responded response false => some (ofResponse response)
  | some observed, .responded response false => some (observed.append response.str)
  | observed, .sent data false => observed.map fun observed => observed.append data
  | observed, _ => observed

theorem ofResponse_setHeader (response : HttpResponse) (value : Bytes) :
    ofResponse (response.setHeader (bytes "Content-Length") value) = ofResponse response := by
  have different : bytes "Content-Length" ≠ bytes "Content-Type" := by decide
  simp [ofResponse, HttpResponse.setHeader, KeyedList.get?_set_of_ne _ different]

@[simp]
theorem ofResponse_withContentLength (response : HttpResponse) :
    ofResponse (HttpApi.withContentLength response) = ofResponse response := by
  unfold HttpApi.withContentLength
  split
  · rfl
  · exact ofResponse_setHeader response _

@[simp]
theorem append_nil (observed : Observed) : observed.append [] = observed := by
  simp [append]

theorem append_append (observed : Observed) (first second : Bytes) :
    (observed.append first).append second = observed.append (first ++ second) := by
  simp [append]

end Observed

/-- What the client has seen so far; `none` before the first response. -/
def World.shown {σ : Type} (world : World σ) : Option Observed :=
  world.events.foldl Observed.observe none

theorem World.shown_mk {σ : Type} (world : World σ) (state : σ) (event : Event) :
    World.shown ⟨state, world.events ++ [event]⟩ = Observed.observe world.shown event := by
  simp [World.shown]

namespace FileSystem

variable (files : FileSystem) (heap : Memory)

section Calls

variable (world : World (Option Bytes))

@[simp]
theorem shown_lstat (path : Bytes) :
    (world.lstat (files.system heap) path).2.shown = world.shown :=
  (World.shown_mk world _ _).trans (by cases world.shown <;> rfl)

@[simp]
theorem shown_openFile (path : Bytes) :
    (world.openFile (files.system heap) path).2.shown = world.shown :=
  (World.shown_mk world _ _).trans (by cases world.shown <;> rfl)

@[simp]
theorem shown_read (fd : Int) :
    (world.read (files.system heap) fd).2.shown = world.shown :=
  (World.shown_mk world _ _).trans (by cases world.shown <;> rfl)

@[simp]
theorem shown_close (fd : Int) :
    (world.close (files.system heap) fd).2.shown = world.shown :=
  (World.shown_mk world _ _).trans (by cases world.shown <;> rfl)

@[simp]
theorem shown_send (fd : Int) (data : Bytes) :
    (world.send (files.system heap) fd data).2.shown =
      world.shown.map fun observed => observed.append data :=
  (World.shown_mk world _ _).trans (by cases world.shown <;> rfl)

theorem openFile_refused {path : Bytes} (contents : files.contents path = .refused) :
    ∃ opened, world.openFile (files.system heap) path = (-1, opened) ∧
      opened.shown = world.shown := by
  refine ⟨_, ?_, shown_openFile files heap world path⟩
  simp [World.openFile, FileSystem.system, contents]

theorem openFile_unreadable {path : Bytes} (contents : files.contents path = .unreadable) :
    ∃ opened, world.openFile (files.system heap) path = (3, opened) ∧ opened.state = none ∧
      opened.shown = world.shown := by
  refine ⟨_, ?_, ?_, shown_openFile files heap world path⟩ <;>
    simp [World.openFile, FileSystem.system, contents]

theorem openFile_readable {path content : Bytes}
    (contents : files.contents path = .readable content) :
    ∃ opened, world.openFile (files.system heap) path = (3, opened) ∧
      opened.state = some content ∧ opened.shown = world.shown := by
  refine ⟨_, ?_, ?_, shown_openFile files heap world path⟩ <;>
    simp [World.openFile, FileSystem.system, contents]

theorem read_unreadable (left : world.state = none) :
    world.read (files.system heap) 3 = (none, (world.read (files.system heap) 3).2) := by
  simp [World.read, FileSystem.system, left]

/-- A read takes what fits in the buffer from what is left of the file. -/
theorem read_left {content : Bytes} (left : world.state = some content) :
    ∃ after, world.read (files.system heap) 3 = (some (content.take bufferLimit), after) ∧
      after.state = some (content.drop bufferLimit) ∧ after.shown = world.shown := by
  refine ⟨_, ?_, ?_, shown_read files heap world 3⟩ <;>
    simp [World.read, FileSystem.system, left]

theorem shown_respond (fd : Int) (response : HttpResponse) (silent : world.shown = none) :
    (HttpApi.respond (files.system heap) world fd response).2.shown =
      some (Observed.ofResponse response) := by
  refine (World.shown_mk world _ _).trans ?_
  simp [silent, Observed.observe]

end Calls

section Loops

/-- The fill loop copies what is left of the open file behind `offset`. -/
theorem fill_converges (rounds : Nat) :
    ∀ (content : Bytes) (offset : Nat) (file : CachedFile) (world : World (Option Bytes)),
      world.state = some content → content.length < rounds * bufferLimit →
      ∃ filled after,
        Converges (fun fuel => HttpApi.fill (files.system heap) 3 fuel offset file world)
          (true, filled, after) ∧
        filled.dataLength = file.dataLength ∧ filled.modified = file.modified ∧
        (∀ i < offset, filled.data i = file.data i) ∧
        (∀ i < content.length, filled.data (offset + i) = content[i]?) ∧
        after.shown = world.shown := by
  induction rounds with
  | zero =>
      intro content offset file world left short
      omega
  | succ rounds ih =>
      intro content offset file world left short
      obtain ⟨after, read, rest, shownAfter⟩ := read_left files heap world left
      by_cases last : content.length < bufferLimit
      · have whole : content.take bufferLimit = content := List.take_of_length_le (by omega)
        refine ⟨file.write offset content, after, ⟨1, ?_⟩, rfl, rfl, ?_, ?_, shownAfter⟩
        · simp [HttpApi.fill_succ, read, whole, last]
        · intro i before
          simp [CachedFile.write, Nat.not_le_of_lt before]
        · intro i within
          simp [CachedFile.write, within]
      · have length : (content.take bufferLimit).length = bufferLimit := by
          rw [List.length_take]
          omega
        obtain ⟨filled, final, converges, sameLength, sameModified, before, copied, shown⟩ :=
          ih (content.drop bufferLimit) (offset + bufferLimit)
            (file.write offset (content.take bufferLimit)) after rest
            (by rw [List.length_drop]; unfold bufferLimit at *; omega)
        refine ⟨filled, final, ?_, sameLength, sameModified, ?_, ?_, shown.trans shownAfter⟩
        · obtain ⟨fuel, answer⟩ := converges
          refine ⟨fuel + 1, ?_⟩
          simp only [HttpApi.fill_succ, read, length, Nat.lt_irrefl, if_false]
          exact answer
        · intro i early
          rw [before i (by omega)]
          simp [CachedFile.write, Nat.not_le_of_lt early]
        · intro i within
          by_cases first : i < bufferLimit
          · have inside : offset + i < offset + (content.take bufferLimit).length := by omega
            rw [before (offset + i) (by omega)]
            simp only [CachedFile.write, Nat.le_add_right, inside, and_self, if_true,
              Nat.add_sub_cancel_left, List.getElem?_take_of_lt first]
          · have later := copied (i - bufferLimit) (by rw [List.length_drop]; omega)
            have position : offset + bufferLimit + (i - bufferLimit) = offset + i := by omega
            have index : bufferLimit + (i - bufferLimit) = i := by omega
            rw [List.getElem?_drop] at later
            simpa only [position, index] using later

/-- The chunks of a cache entry make up its content. -/
theorem sendChunks_converges (fd : Int) (data : Bytes) (rounds : Nat) :
    ∀ (offset : Nat) (world : World (Option Bytes)), offset ≤ data.length →
      offset % bufferLimit = 0 → data.length < offset + rounds * bufferLimit →
      ∃ after,
        Converges
          (fun fuel => HttpApi.sendChunks (files.system heap) fd data fuel offset bufferLimit world)
          (true, after) ∧
        after.shown = world.shown.map fun observed => observed.append (data.drop offset) := by
  induction rounds with
  | zero =>
      intro offset world within aligned short
      omega
  | succ rounds ih =>
      intro offset world within aligned short
      by_cases last : offset + bufferLimit > data.length
      · have size : data.length % bufferLimit = data.length - offset := by
          unfold bufferLimit at aligned last ⊢
          omega
        have chunk : (data.drop offset).take (data.length % bufferLimit) = data.drop offset := by
          rw [size, List.take_of_length_le (by simp)]
        have notFull : data.length % bufferLimit ≠ bufferLimit :=
          Nat.ne_of_lt (Nat.mod_lt _ (by decide))
        refine ⟨(world.send (files.system heap) fd (data.drop offset)).2, ⟨2, ?_⟩,
          shown_send files heap world fd _⟩
        simp only [HttpApi.sendChunks_succ, if_true, last, chunk, notFull, if_false]
        rfl
      · obtain ⟨after, converges, shown⟩ := ih (offset + bufferLimit)
          (world.send (files.system heap) fd ((data.drop offset).take bufferLimit)).2 (by omega)
          (by simpa using aligned) (by unfold bufferLimit at short ⊢; omega)
        refine ⟨after, ?_, ?_⟩
        · obtain ⟨fuel, answer⟩ := converges
          refine ⟨fuel + 1, ?_⟩
          simp only [HttpApi.sendChunks_succ, if_true, last, if_false]
          exact answer
        · rw [shown, shown_send, Option.map_map]
          congr 1
          funext observed
          rw [Function.comp_apply, Observed.append_append, ← List.drop_drop,
            List.take_append_drop]

/-- `respond_view` sends what is left of the open file. -/
theorem sendFile_converges (fd : Int) (rounds : Nat) :
    ∀ (content : Bytes) (world : World (Option Bytes)),
      world.state = some content → content.length < rounds * bufferLimit →
      ∃ after,
        Converges (fun fuel => HttpApi.sendFile (files.system heap) fd 3 fuel world)
          (true, after) ∧
        after.shown = world.shown.map fun observed => observed.append content := by
  induction rounds with
  | zero =>
      intro content world left short
      omega
  | succ rounds ih =>
      intro content world left short
      obtain ⟨readAfter, read, rest, shownRead⟩ := read_left files heap world left
      let sentAfter := (readAfter.send (files.system heap) fd (content.take bufferLimit)).2
      have rest : sentAfter.state = some (content.drop bufferLimit) := rest
      have shownSent : sentAfter.shown =
          world.shown.map fun observed => observed.append (content.take bufferLimit) := by
        rw [← shownRead]
        exact shown_send files heap readAfter fd _
      by_cases last : content.length < bufferLimit
      · have whole : content.take bufferLimit = content := List.take_of_length_le (by omega)
        rw [whole] at shownSent
        refine ⟨sentAfter, ⟨1, ?_⟩, shownSent⟩
        simp [HttpApi.sendFile_succ, read, whole, last, sentAfter]
        rfl
      · have length : (content.take bufferLimit).length = bufferLimit := by
          rw [List.length_take]
          omega
        obtain ⟨final, converges, shown⟩ := ih (content.drop bufferLimit) sentAfter rest
          (by rw [List.length_drop]; unfold bufferLimit at *; omega)
        refine ⟨final, ?_, ?_⟩
        · obtain ⟨fuel, answer⟩ := converges
          refine ⟨fuel + 1, ?_⟩
          simp only [HttpApi.sendFile_succ, read, length, Nat.lt_irrefl, if_false]
          exact answer
        · rw [shown, shownSent, Option.map_map]
          congr 1
          funext observed
          rw [Function.comp_apply, Observed.append_append, List.take_append_drop]

theorem sendFile_unreadable (fd : Int) (world : World (Option Bytes)) (left : world.state = none) :
    Converges (fun fuel => HttpApi.sendFile (files.system heap) fd 3 fuel world)
      (false, (world.read (files.system heap) 3).2) := by
  refine ⟨1, ?_⟩
  change HttpApi.sendFile (files.system heap) fd 3 (0 + 1) world = _
  rw [HttpApi.sendFile_succ, if_pos (by decide), read_unreadable files heap world left]

end Loops

/-- A run ends, and the client has then seen `observed`. -/
def Shows {α : Type} (world : α → World (Option Bytes)) (run : Nat → Option α)
    (observed : Option Observed) : Prop :=
  ∃ result, Converges run result ∧ (world result).shown = observed

theorem shows_of_converges {α : Type} {world : α → World (Option Bytes)} {run : Nat → Option α}
    {result : α} {observed : Option Observed} (stable : Stable run)
    (converges : Converges run result) :
    Shows world run observed ↔ observed = (world result).shown := by
  constructor
  · rintro ⟨other, otherConverges, rfl⟩
    rw [stable.unique converges otherConverges]
  · rintro rfl
    exact ⟨result, converges, rfl⟩

section Serving

variable (world : World (Option Bytes)) (fd : Int) (response : HttpResponse)
  {observed : Option Observed}

theorem shows_templatize (silent : world.shown = none) (parameters : List (Bytes × Bytes))
    (content : Bytes) :
    Shows Prod.snd (fun fuel => (HttpApi.templatize parameters content fuel).map fun body =>
        HttpApi.respond (files.system heap) world fd { response with body := body }) observed ↔
      ∃ body, Converges (HttpApi.templatize parameters content) body ∧
        observed = some (Observed.ofResponse { response with body := body }) := by
  simp only [Shows, converges_map]
  constructor
  · rintro ⟨result, ⟨body, converges, rfl⟩, rfl⟩
    exact ⟨body, converges, shown_respond files heap world fd _ silent⟩
  · rintro ⟨body, converges, rfl⟩
    exact ⟨_, ⟨body, converges, rfl⟩, shown_respond files heap world fd _ silent⟩

theorem shows_respondCachedFile (silent : world.shown = none) (cachedFile : CachedFile) :
    Shows Prod.snd
        (HttpApi.respondCachedFile (files.system heap) world fd response cachedFile) observed ↔
      observed = some ((Observed.ofResponse response).append (cachedFile.content heap)) := by
  let headed := response.setHeader (bytes "Content-Length") (HttpApi.toString cachedFile.dataLength)
  let responded := HttpApi.respond (files.system heap) world fd headed
  have shownHead : responded.2.shown = some (Observed.ofResponse response) := by
    rw [← Observed.ofResponse_setHeader]
    exact shown_respond files heap world fd headed silent
  obtain ⟨after, converges, shown⟩ := sendChunks_converges files heap fd
    (cachedFile.content heap) ((cachedFile.content heap).length + 1) 0 responded.2 (Nat.zero_le _)
    (Nat.zero_mod _) (by unfold bufferLimit; omega)
  have run : Converges
      (HttpApi.respondCachedFile (files.system heap) world fd response cachedFile)
      (responded.1 + cachedFile.dataLength, after) :=
    converges_map.mpr ⟨_, converges, rfl⟩
  rw [shows_of_converges (HttpApi.respondCachedFile_stable _ _ _ _ _) run, shown, shownHead]
  rfl

/-- What `respond_view` sends of a path. -/
def delivered : FileContents → Bytes
  | .readable content => content
  | _ => []

/-- `respond_view` once its head is sent. -/
theorem respondView_eq (view : View) (fuel : Nat) :
    HttpApi.respondView (files.system heap) world fd view response fuel =
      let opened := (HttpApi.respond (files.system heap) world fd response).2.openFile
        (files.system heap) view.route
      if opened.1 < 0 then some (-1, opened.2)
      else
        (HttpApi.sendFile (files.system heap) fd opened.1 fuel opened.2).map fun sent =>
          if !sent.1 then (-1, sent.2)
          else ((HttpApi.withContentLength response).str.length + view.size,
            (sent.2.close (files.system heap) opened.1).2) := by
  have sent : ¬ (HttpApi.respond (files.system heap) world fd response).1 < 0 := by
    simp [HttpApi.respond, FileSystem.system]
  simp only [HttpApi.respondView, sent, if_false]
  rfl

theorem shows_respondView (silent : world.shown = none) (view : View) :
    Shows Prod.snd (HttpApi.respondView (files.system heap) world fd view response) observed ↔
      observed =
        some ((Observed.ofResponse response).append (delivered (files.contents view.route))) := by
  have stable := HttpApi.respondView_stable (files.system heap) world fd view response
  let responded := (HttpApi.respond (files.system heap) world fd response).2
  have shownResponded : responded.shown = some (Observed.ofResponse response) :=
    shown_respond files heap world fd response silent
  cases contents : files.contents view.route with
  | refused =>
      obtain ⟨opened, opening, shownOpened⟩ := openFile_refused files heap responded contents
      have run : Converges (HttpApi.respondView (files.system heap) world fd view response)
          (-1, opened) := ⟨0, by rw [respondView_eq]; simp [responded, opening]⟩
      rw [shows_of_converges stable run, shownOpened, shownResponded]
      simp [delivered]
  | unreadable =>
      obtain ⟨opened, opening, left, shownOpened⟩ :=
        openFile_unreadable files heap responded contents
      obtain ⟨fuel, failed⟩ := sendFile_unreadable files heap fd opened left
      have run : Converges (HttpApi.respondView (files.system heap) world fd view response)
          (-1, (opened.read (files.system heap) 3).2) := by
        refine ⟨fuel, ?_⟩
        rw [respondView_eq]
        simp [responded, opening, failed]
      rw [shows_of_converges stable run, shown_read, shownOpened, shownResponded]
      simp [delivered]
  | readable content =>
      obtain ⟨opened, opening, left, shownOpened⟩ :=
        openFile_readable files heap responded contents
      obtain ⟨after, ⟨fuel, answer⟩, shown⟩ := sendFile_converges files heap fd
        (content.length + 1) content opened left (by unfold bufferLimit; omega)
      have run : Converges (HttpApi.respondView (files.system heap) world fd view response)
          ((HttpApi.withContentLength response).str.length + view.size,
            (after.close (files.system heap) 3).2) := by
        refine ⟨fuel, ?_⟩
        rw [respondView_eq]
        simp [responded, opening, answer]
      rw [shows_of_converges stable run, shown_close, shown, shownOpened, shownResponded]
      simp [delivered]

/-- The template is rendered from the first `BUFFER_LIMIT` bytes behind the
route, provided there are as many of them as the cleaned path has. -/
theorem shows_respondParameterizedView (silent : world.shown = none) (view : View) :
    Shows Prod.snd (HttpApi.respondParameterizedView (files.system heap) world fd view response)
        observed ↔
      match files.contents view.route with
      | .readable raw =>
          if ((raw.take bufferLimit).length : Int) = view.size then
            ∃ body, Converges (HttpApi.templatize view.parameters (raw.take bufferLimit)) body ∧
              observed = some (Observed.ofResponse { response with body := body })
          else observed = none
      | _ => observed = none := by
  have stable := HttpApi.respondParameterizedView_stable (files.system heap) world fd view response
  cases contents : files.contents view.route with
  | refused =>
      obtain ⟨opened, opening, shownOpened⟩ := openFile_refused files heap world contents
      have run : Converges
          (HttpApi.respondParameterizedView (files.system heap) world fd view response)
          (-1, opened) := ⟨0, by simp [HttpApi.respondParameterizedView, opening]⟩
      rw [shows_of_converges stable run, shownOpened, silent]
  | unreadable =>
      obtain ⟨opened, opening, left, shownOpened⟩ := openFile_unreadable files heap world contents
      have read := read_unreadable files heap opened left
      have run : Converges
          (HttpApi.respondParameterizedView (files.system heap) world fd view response)
          (-1, (opened.read (files.system heap) 3).2) := by
        refine ⟨0, ?_⟩
        simp only [HttpApi.respondParameterizedView, opening]
        rw [read]
        rfl
      rw [shows_of_converges stable run, shown_read, shownOpened, silent]
  | readable raw =>
      obtain ⟨opened, opening, left, shownOpened⟩ := openFile_readable files heap world contents
      obtain ⟨readAfter, read, -, shownRead⟩ := read_left files heap opened left
      let closed := (readAfter.close (files.system heap) 3).2
      have closing : readAfter.close (files.system heap) 3 = (true, closed) := rfl
      have shownClosed : closed.shown = none :=
        (shown_close files heap readAfter 3).trans (shownRead.trans (shownOpened.trans silent))
      by_cases size : ((raw.take bufferLimit).length : Int) = view.size
      · have run : HttpApi.respondParameterizedView (files.system heap) world fd view response =
            fun fuel => (HttpApi.templatize view.parameters (raw.take bufferLimit) fuel).map
              fun body => HttpApi.respond (files.system heap) closed fd
                { response with body := body } := by
          funext fuel
          simp only [HttpApi.respondParameterizedView, opening, read, closing, size]
          simp
        rw [run, shows_templatize files heap closed fd response shownClosed]
        simp only [size, if_true]
      · have run : Converges
            (HttpApi.respondParameterizedView (files.system heap) world fd view response)
            (-1, closed) := by
          refine ⟨0, ?_⟩
          simp only [HttpApi.respondParameterizedView, opening, read, closing, ne_eq, size,
            not_false_eq_true, if_true]
          rfl
        rw [shows_of_converges stable run, shownClosed]
        simp only [size, if_false]

end Serving

/-- The regular file that a path leads to. -/
def lookup (path : Bytes) : Option (Bytes × Stat) :=
  match files.lstat path with
  | none => none
  | some stat =>
      if stat.kind = .directory then
        match files.lstat (path ++ bytes "/index.html") with
        | none => none
        | some stat =>
            if stat.kind = .regular then some (path ++ bytes "/index.html", stat) else none
      else if stat.kind = .regular then some (path, stat) else none

theorem resolve_eq (world : World (Option Bytes)) (path : Bytes) :
    ∃ after, HttpApi.resolve (files.system heap) world path = (files.lookup path, after) ∧
      after.shown = world.shown := by
  have first : world.lstat (files.system heap) path =
      (files.lstat path, (world.lstat (files.system heap) path).2) := rfl
  have second (world : World (Option Bytes)) :
      world.lstat (files.system heap) (path ++ bytes "/index.html") =
        (files.lstat (path ++ bytes "/index.html"),
          (world.lstat (files.system heap) (path ++ bytes "/index.html")).2) := rfl
  unfold HttpApi.resolve lookup
  rw [first]
  cases files.lstat path with
  | none => exact ⟨_, rfl, shown_lstat files heap world path⟩
  | some stat =>
      by_cases directory : stat.kind = .directory
      · simp only [directory, if_true]
        rw [second]
        cases files.lstat (path ++ bytes "/index.html") with
        | none => exact ⟨_, rfl, by simp⟩
        | some index => exact ⟨_, rfl, by simp⟩
      · simp only [directory, if_false]
        exact ⟨_, rfl, shown_lstat files heap world path⟩

end FileSystem

namespace CachedFile

/-- The entry was filled with `content`. -/
structure Holds (file : CachedFile) (content : Bytes) : Prop where
  length : file.dataLength = content.length
  data : ∀ i < content.length, file.data i = content[i]?

theorem Holds.content_eq {file : CachedFile} {content : Bytes} (holds : file.Holds content)
    (heap : Memory) : file.content heap = content := by
  apply List.ext_getElem
  · simp [CachedFile.content, holds.length]
  · intro i inFile inContent
    simp [CachedFile.content, holds.data i inContent, inContent]

end CachedFile

namespace HttpApi

variable {σ : Type}

/-- The cache has no entry for the file, or one of another modification time. -/
def Outdated (api : HttpApi σ) (path : Bytes) (stat : Stat) : Prop :=
  ∀ file, KeyedList.get? api.fileCache path = some file → stat.mtime ≠ file.modified

/-- The cache holds the file, or has the room and the lock to take it in. -/
def CanServe (api : HttpApi σ) (path : Bytes) (stat : Stat) (content : Bytes) : Prop :=
  (∃ file, KeyedList.get? api.fileCache path = some file ∧ stat.mtime = file.modified ∧
      file.Holds content) ∨
    (api.Outdated path stat ∧ api.fileCacheRemainingBytes > stat.size ∧
      api.fileCacheMutex = false)

/-- The file is not in the cache and cannot be taken in. -/
def CannotCache (api : HttpApi σ) (path : Bytes) (stat : Stat) : Prop :=
  api.Outdated path stat ∧
    (api.fileCacheRemainingBytes ≤ stat.size ∨ api.fileCacheMutex = true)

theorem get?_dropModified {api : HttpApi σ} {path : Bytes} {stat : Stat}
    (outdated : api.Outdated path stat) :
    KeyedList.get? (dropModified api path stat).fileCache path = none := by
  unfold dropModified
  cases found : KeyedList.get? api.fileCache path with
  | none => exact found
  | some file =>
      simp [outdated file found, KeyedList.get?_erase]

theorem dropModified_of_current {api : HttpApi σ} {path : Bytes} {stat : Stat} {file : CachedFile}
    (found : KeyedList.get? api.fileCache path = some file) (current : stat.mtime = file.modified) :
    dropModified api path stat = api := by
  simp [dropModified, found, current]

@[simp]
theorem fileCacheRemainingBytes_dropModified (api : HttpApi σ) (path : Bytes) (stat : Stat) :
    (dropModified api path stat).fileCacheRemainingBytes = api.fileCacheRemainingBytes := by
  unfold dropModified
  split
  · rfl
  · split <;> rfl

@[simp]
theorem fileCacheMutex_dropModified (api : HttpApi σ) (path : Bytes) (stat : Stat) :
    (dropModified api path stat).fileCacheMutex = api.fileCacheMutex := by
  unfold dropModified
  split
  · rfl
  · split <;> rfl

end HttpApi

namespace FileSystem

open HttpApi

variable (files : FileSystem) (heap : Memory)

/-- What a client may see when `content` is served at `path`. -/
def Sees (view : View) (response : HttpResponse) (path content : Bytes)
    (observed : Option Observed) : Prop :=
  let response := response.setHeader (bytes "Content-Type") (contentType path)
  if content.length < bufferLimit ∧ isHtml path then
    ∃ body, Converges (templatize view.parameters content) body ∧
      observed = some (Observed.ofResponse { response with body := body })
  else observed = some ((Observed.ofResponse response).append content)

section Requests

variable {api : HttpApi (Option Bytes)} {view : View} {path content : Bytes} {stat : Stat}
  {observed : Option Observed}

theorem shows_serve_cached {world : World (Option Bytes)} (silent : world.shown = none) (fd : Int)
    (response : HttpResponse) {file : CachedFile}
    (found : KeyedList.get? api.fileCache path = some file) (holds : file.Holds content) :
    Shows Prod.snd
        (serve (files.system heap) api world fd view
          (response.setHeader (bytes "Content-Type") (contentType path)) path stat) observed ↔
      Sees view response path content observed := by
  have heapOf : (files.system heap).heap = heap := rfl
  by_cases small : content.length < bufferLimit ∧ isHtml path
  · have run : serve (files.system heap) api world fd view
        (response.setHeader (bytes "Content-Type") (contentType path)) path stat =
          fun fuel => (templatize view.parameters content fuel).map fun body =>
            respond (files.system heap) world fd
              { response.setHeader (bytes "Content-Type") (contentType path) with body := body } := by
      funext fuel
      simp only [serve, found, holds.length, small, heapOf, holds.content_eq heap]
      rfl
    rw [run, shows_templatize files heap world fd _ silent]
    simp [Sees, small]
  · have run : serve (files.system heap) api world fd view
        (response.setHeader (bytes "Content-Type") (contentType path)) path stat =
          respondCachedFile (files.system heap) world fd
            (response.setHeader (bytes "Content-Type") (contentType path)) file := by
      funext fuel
      simp only [serve, found, holds.length, small, if_false]
    rw [run, shows_respondCachedFile files heap world fd _ silent, holds.content_eq heap]
    simp [Sees, small]

/-- Filling a cache entry from a readable file succeeds and shows nothing. -/
theorem cacheFile_converges (api : HttpApi (Option Bytes)) (world : World (Option Bytes))
    (readable : files.contents path = .readable content) (sized : stat.size = content.length) :
    ∃ file after,
      Converges (cacheFile (files.system heap) api world path stat)
        (true,
          { api with
            fileCache := KeyedList.set api.fileCache path file
            fileCacheRemainingBytes := api.fileCacheRemainingBytes - stat.size }, after) ∧
      file.Holds content ∧ after.shown = world.shown := by
  obtain ⟨opened, opening, left, shownOpened⟩ := openFile_readable files heap world readable
  obtain ⟨filled, after, ⟨fuel, answer⟩, length, -, -, copied, shown⟩ := fill_converges files heap
    (content.length + 1) content 0 ⟨fun _ => none, stat.size, stat.mtime⟩ opened left
    (by unfold bufferLimit; omega)
  dsimp only at answer
  refine ⟨filled, (after.close (files.system heap) 3).2, ⟨fuel, ?_⟩, ⟨?_, ?_⟩, ?_⟩
  · simp only [cacheFile, opening]
    rw [if_neg (by decide), answer]
    rfl
  · rw [length, sized]
  · intro i within
    simpa using copied i within
  · rw [shown_close, shown, shownOpened]

theorem respondHttp_eq {world : World (Option Bytes)} (get : view.method = bytes "GET") (fd : Int)
    (response : HttpResponse) {after : World (Option Bytes)}
    (resolved : resolve (files.system heap) world (api.publicDirectory ++ cleanRoute view.route) =
      (some (path, stat), after)) :
    respondHttp (files.system heap) api world fd view response = fun fuel =>
      let response := response.setHeader (bytes "Content-Type") (contentType path)
      let api := dropModified api path stat
      if !KeyedList.contains api.fileCache path ∧ api.fileCacheRemainingBytes > stat.size ∧
          !api.fileCacheMutex then
        (cacheFile (files.system heap) api after path stat fuel).bind fun cached =>
          if !cached.1 then some ⟨-1, cached.2.1, cached.2.2⟩
          else
            (serve (files.system heap) cached.2.1 cached.2.2 fd view response path stat fuel).map
              fun served => ⟨served.1, cached.2.1, served.2⟩
      else
        (serve (files.system heap) api after fd view response path stat fuel).map
          fun served => ⟨served.1, api, served.2⟩ := by
  have notHead : view.method ≠ bytes "HEAD" := by
    rw [get]
    decide
  funext fuel
  simp only [respondHttp, resolved, notHead, if_false]

theorem shows_map {α β : Type} {world : β → World (Option Bytes)} {run : Nat → Option α}
    {change : α → β} :
    Shows world (fun fuel => (run fuel).map change) observed ↔
      Shows (fun value => world (change value)) run observed := by
  simp only [Shows, converges_map]
  constructor
  · rintro ⟨result, ⟨value, converges, rfl⟩, shown⟩
    exact ⟨value, converges, shown⟩
  · rintro ⟨value, converges, shown⟩
    exact ⟨_, ⟨value, converges, rfl⟩, shown⟩

theorem shows_bind {α β : Type} {world : β → World (Option Bytes)} {run : Nat → Option α}
    {next : α → Nat → Option β} (runStable : Stable run) (nextStable : ∀ value, Stable (next value))
    {value : α} (converges : Converges run value) :
    Shows world (fun fuel => (run fuel).bind fun value => next value fuel) observed ↔
      Shows world (next value) observed := by
  simp only [Shows, converges_bind runStable nextStable]
  constructor
  · rintro ⟨result, ⟨other, otherConverges, later⟩, shown⟩
    rw [runStable.unique otherConverges converges] at later
    exact ⟨result, later, shown⟩
  · rintro ⟨result, later, shown⟩
    exact ⟨result, ⟨value, converges, later⟩, shown⟩

theorem lookup_regular {requested : Bytes} (found : files.lookup requested = some (path, stat)) :
    files.lstat path = some stat ∧ stat.kind = .regular := by
  unfold lookup at found
  split at found
  · simp at found
  · split_ifs at found with directory regular
    · split at found
      · simp at found
      · split_ifs at found with indexRegular
        simp only [Option.some.injEq, Prod.mk.injEq] at found
        obtain ⟨rfl, rfl⟩ := found
        exact ⟨by assumption, indexRegular⟩
    · simp only [Option.some.injEq, Prod.mk.injEq] at found
      obtain ⟨rfl, rfl⟩ := found
      exact ⟨by assumption, regular⟩

theorem shows_cached {world : World (Option Bytes)} (silent : world.shown = none)
    (get : view.method = bytes "GET") (fd : Int) (response : HttpResponse)
    (found : files.lookup (api.publicDirectory ++ cleanRoute view.route) = some (path, stat))
    (readable : files.contents path = .readable content) (canServe : api.CanServe path stat content) :
    Shows Answer.world (respondHttp (files.system heap) api world fd view response) observed ↔
      Sees view response path content observed := by
  obtain ⟨after, resolved, shownAfter⟩ := resolve_eq files heap world
    (api.publicDirectory ++ cleanRoute view.route)
  rw [found] at resolved
  rw [silent] at shownAfter
  rw [respondHttp_eq files heap get fd response resolved]
  rcases canServe with ⟨file, entry, current, holds⟩ | ⟨outdated, room, free⟩
  · have present : KeyedList.contains api.fileCache path = true := by
      simp [KeyedList.contains, entry]
    simp only [dropModified_of_current entry current, present, Bool.not_true, Bool.false_eq_true,
      false_and, if_false]
    rw [shows_map]
    exact shows_serve_cached files heap shownAfter fd response entry holds
  · have absent : KeyedList.contains (dropModified api path stat).fileCache path = false := by
      simp [KeyedList.contains, get?_dropModified outdated]
    obtain ⟨regular, kind⟩ := lookup_regular files found
    obtain ⟨file, filledAfter, converges, holds, shown⟩ := cacheFile_converges files heap
      (dropModified api path stat) after readable (files.sized regular kind readable)
    simp only [absent, Bool.not_false, fileCacheRemainingBytes_dropModified, room,
      fileCacheMutex_dropModified, free, and_self, if_true]
    rw [shows_bind (cacheFile_stable (files.system heap) _ after path stat) ?_ converges]
    · simp only [Bool.not_true, Bool.false_eq_true, if_false]
      rw [shows_map]
      exact shows_serve_cached files heap (shown.trans shownAfter) fd response
        (KeyedList.get?_set_self _ _ _) holds
    · intro cached
      split
      · exact stable_const _
      · exact (serve_stable (files.system heap) _ _ fd view _ path stat).map _

theorem shows_uncached {world : World (Option Bytes)} (silent : world.shown = none)
    (get : view.method = bytes "GET") (fd : Int) (response : HttpResponse)
    (found : files.lookup (api.publicDirectory ++ cleanRoute view.route) = some (path, stat))
    (cannot : api.CannotCache path stat) :
    Shows Answer.world (respondHttp (files.system heap) api world fd view response) observed ↔
      let response := response.setHeader (bytes "Content-Type") (contentType path)
      if stat.size < bufferLimit ∧ isHtml path then
        match files.contents view.route with
        | .readable raw =>
            if (raw.take bufferLimit).length = stat.size then
              ∃ body, Converges (templatize view.parameters (raw.take bufferLimit)) body ∧
                observed = some (Observed.ofResponse { response with body := body })
            else observed = none
        | _ => observed = none
      else
        observed =
          some ((Observed.ofResponse response).append (delivered (files.contents view.route))) := by
  obtain ⟨after, resolved, shownAfter⟩ := resolve_eq files heap world
    (api.publicDirectory ++ cleanRoute view.route)
  rw [found] at resolved
  rw [silent] at shownAfter
  obtain ⟨outdated, full⟩ := cannot
  have entry := get?_dropModified outdated
  rw [respondHttp_eq files heap get fd response resolved]
  have notTaken : ¬ ((!KeyedList.contains (dropModified api path stat).fileCache path) = true ∧
      (dropModified api path stat).fileCacheRemainingBytes > stat.size ∧
      (!(dropModified api path stat).fileCacheMutex) = true) := by
    rintro ⟨-, room, free⟩
    simp only [fileCacheRemainingBytes_dropModified, fileCacheMutex_dropModified] at room free
    rcases full with full | taken
    · omega
    · simp [taken] at free
  simp only [notTaken, if_false]
  rw [shows_map]
  by_cases small : stat.size < bufferLimit ∧ isHtml path
  · have smallInt : ((stat.size : Int) < (bufferLimit : Int)) ∧ isHtml path :=
      ⟨by exact_mod_cast small.1, small.2⟩
    have run : serve (files.system heap) (dropModified api path stat) after fd view
        (response.setHeader (bytes "Content-Type") (contentType path)) path stat =
          respondParameterizedView (files.system heap) after fd { view with size := stat.size }
            (response.setHeader (bytes "Content-Type") (contentType path)) := by
      funext fuel
      simp only [serve, entry, smallInt, and_self, if_true]
    rw [run]
    simp only [small, and_self, if_true]
    refine (shows_respondParameterizedView files heap after fd _ shownAfter
      { view with size := stat.size }).trans ?_
    simp only [Int.natCast_inj]
  · have smallInt : ¬ (((stat.size : Int) < (bufferLimit : Int)) ∧ isHtml path) := by
      exact_mod_cast small
    have run : serve (files.system heap) (dropModified api path stat) after fd view
        (response.setHeader (bytes "Content-Type") (contentType path)) path stat =
          respondView (files.system heap) after fd { view with size := stat.size }
            (response.setHeader (bytes "Content-Type") (contentType path)) := by
      funext fuel
      simp only [serve, entry, smallInt, if_false]
    rw [run]
    simp only [small, if_false]
    exact shows_respondView files heap after fd _ shownAfter { view with size := stat.size }

theorem shows_notFound {world : World (Option Bytes)} (silent : world.shown = none) (fd : Int)
    (response : HttpResponse)
    (missing : files.lookup (api.publicDirectory ++ cleanRoute view.route) = none) :
    Shows Answer.world (respondHttp (files.system heap) api world fd view response) observed ↔
      observed = some (Observed.ofResponse
        ⟨bytes "HTTP/1.1", bytes "302 Not Found", [(bytes "Location", bytes "404.html")],
          bytes "<h1 style='text-align:center;'>404 Not Found</h1>"⟩) := by
  obtain ⟨after, resolved, shownAfter⟩ := resolve_eq files heap world
    (api.publicDirectory ++ cleanRoute view.route)
  rw [missing] at resolved
  rw [silent] at shownAfter
  have run : respondHttp (files.system heap) api world fd view response = fun _ =>
      some ⟨(respond404 (files.system heap) after fd).1, api,
        (respond404 (files.system heap) after fd).2⟩ := by
    funext fuel
    simp only [respondHttp, resolved]
  rw [run, shows_of_converges (stable_const _) ⟨0, rfl⟩]
  dsimp only
  rw [respond404, shown_respond files heap after fd _ shownAfter]

end Requests

/-- What the client's own spelling of the route leads to serves as well as the
file at the cleaned path: as a small page it has the same size and renders
alike, and otherwise it delivers the same bytes. -/
def RouteReads (view : View) (path content : Bytes) : Prop :=
  if content.length < bufferLimit ∧ isHtml path then
    ∃ raw, files.contents view.route = .readable raw ∧ raw.length = content.length ∧
      ∀ body, Converges (templatize view.parameters raw) body ↔
        Converges (templatize view.parameters content) body
  else delivered (files.contents view.route) = content

/-- Two states of the program that serve the requested file, if there is one,
from the cache and without it. -/
def CachedAndNot (cached uncached : HttpApi (Option Bytes)) (view : View) : Prop :=
  cached.publicDirectory = uncached.publicDirectory ∧
    ∀ path stat, files.lookup (cached.publicDirectory ++ cleanRoute view.route) = some (path, stat) →
      (∃ content, files.contents path = .readable content ∧ cached.CanServe path stat content) ∧
        uncached.CannotCache path stat

/-- The two ways of serving a file compared by what they make of its content. -/
theorem sees_iff_routeReads (view : View) (response : HttpResponse) {path content : Bytes}
    {size : Nat} (sized : size = content.length) :
    (∀ observed, Sees view response path content observed ↔
      let response := response.setHeader (bytes "Content-Type") (contentType path)
      if size < bufferLimit ∧ isHtml path then
        match files.contents view.route with
        | .readable raw =>
            if (raw.take bufferLimit).length = size then
              ∃ body, Converges (templatize view.parameters (raw.take bufferLimit)) body ∧
                observed = some (Observed.ofResponse { response with body := body })
            else observed = none
        | _ => observed = none
      else
        observed =
          some ((Observed.ofResponse response).append (delivered (files.contents view.route)))) ↔
      files.RouteReads view path content := by
  subst sized
  by_cases small : content.length < bufferLimit ∧ isHtml path
  · simp only [Sees, RouteReads, small, and_self, if_true]
    have nothing : ¬ ∀ observed,
        (∃ body, Converges (templatize view.parameters content) body ∧
          observed = some (Observed.ofResponse
            { response.setHeader (bytes "Content-Type") (contentType path) with body := body })) ↔
          observed = none := by
      intro agrees
      have absent := (agrees none).mpr rfl
      simp at absent
    cases contents : files.contents view.route with
    | refused => simpa using nothing
    | unreadable => simpa using nothing
    | readable raw =>
        have sizes : (raw.take bufferLimit).length = content.length ↔
            raw.length = content.length := by
          rw [List.length_take]
          omega
        by_cases size : raw.length = content.length
        · have whole : raw.take bufferLimit = raw := List.take_of_length_le (by omega)
          have body_inj (first second : Bytes) :
              Observed.ofResponse
                  { response.setHeader (bytes "Content-Type") (contentType path) with
                    body := first } =
                Observed.ofResponse
                  { response.setHeader (bytes "Content-Type") (contentType path) with
                    body := second } ↔ first = second := by
            simp [Observed.ofResponse]
          simp only [size, if_true, whole, FileContents.readable.injEq, exists_eq_left', true_and]
          constructor
          · intro agrees body
            have same := agrees (some (Observed.ofResponse
              { response.setHeader (bytes "Content-Type") (contentType path) with body := body }))
            simp only [Option.some.injEq, body_inj, exists_eq_right'] at same
            exact same.symm
          · intro alike observed
            simp only [alike]
        · simp only [sizes, size, if_false, FileContents.readable.injEq, exists_eq_left', false_and,
            iff_false]
          exact nothing
  · simp only [Sees, RouteReads, small, if_false]
    constructor
    · intro agrees
      have same := (agrees _).mp rfl
      simp only [Option.some.injEq, Observed.append, Observed.mk.injEq, true_and] at same
      exact (List.append_cancel_left same).symm
    · intro same observed
      rw [same]

/-- The cached and the uncached way of serving a file agree on exactly the
requests whose route, as it stands, reads as the file at the cleaned path. -/
theorem respondHttp_cached_iff (files : FileSystem) (heap : Memory)
    (cached uncached : HttpApi (Option Bytes)) (view : View) (fd : Int) (response : HttpResponse)
    (get : view.method = bytes "GET") (ways : files.CachedAndNot cached uncached view) :
    (∀ observed,
      Shows Answer.world
          (respondHttp (files.system heap) cached ⟨none, []⟩ fd view response) observed ↔
        Shows Answer.world
          (respondHttp (files.system heap) uncached ⟨none, []⟩ fd view response) observed) ↔
      ∀ path stat content,
        files.lookup (cached.publicDirectory ++ cleanRoute view.route) = some (path, stat) →
          files.contents path = .readable content → files.RouteReads view path content := by
  obtain ⟨sameDirectory, ways⟩ := ways
  have silent : World.shown (⟨none, []⟩ : World (Option Bytes)) = none := rfl
  cases found : files.lookup (cached.publicDirectory ++ cleanRoute view.route) with
  | none =>
      have foundUncached := found
      rw [sameDirectory] at foundUncached
      simp [shows_notFound files heap silent fd response found,
        shows_notFound files heap silent fd response foundUncached]
  | some entry =>
      obtain ⟨path, stat⟩ := entry
      obtain ⟨⟨content, readable, canServe⟩, cannot⟩ := ways path stat found
      have foundUncached := found
      rw [sameDirectory] at foundUncached
      obtain ⟨regular, kind⟩ := lookup_regular files found
      have sized := files.sized regular kind readable
      simp only [shows_cached files heap silent get fd response found readable canServe,
        shows_uncached files heap silent get fd response foundUncached cannot]
      rw [sees_iff_routeReads files view response sized]
      constructor
      · rintro reads otherPath otherStat other equal otherReadable
        simp only [Option.some.injEq, Prod.mk.injEq] at equal
        obtain ⟨rfl, rfl⟩ := equal
        rw [readable, FileContents.readable.injEq] at otherReadable
        exact otherReadable ▸ reads
      · intro reads
        exact reads path stat content rfl readable

/-- One readable file, `public/a.txt`. -/
def sampleFiles : FileSystem where
  lstat path := if path = bytes "public/a.txt" then some ⟨.regular, 2, 0⟩ else none
  contents path := if path = bytes "public/a.txt" then .readable (bytes "hi") else .refused
  sized := by
    intro path stat content found kind readable
    by_cases known : path = bytes "public/a.txt"
    · simp only [known, if_true, Option.some.injEq, FileContents.readable.injEq] at found readable
      rw [← found, ← readable]
      rfl
    · simp [known] at found

def sampleApi (room : Int) : HttpApi (Option Bytes) :=
  ⟨bytes "public", [], room, false, [], []⟩

def sampleView : View :=
  ⟨bytes "/a.txt", bytes "GET", [], 0⟩

theorem lookup_sampleView :
    sampleFiles.lookup (bytes "public" ++ cleanRoute sampleView.route) =
      some (bytes "public/a.txt", ⟨.regular, 2, 0⟩) := by
  decide

theorem canServe_sampleApi : (sampleApi 100).CanServe (bytes "public/a.txt") ⟨.regular, 2, 0⟩
    (bytes "hi") :=
  Or.inr ⟨by intro file found; simp [sampleApi] at found, by decide, rfl⟩

theorem cannotCache_sampleApi :
    (sampleApi 0).CannotCache (bytes "public/a.txt") ⟨.regular, 2, 0⟩ :=
  ⟨by intro file found; simp [sampleApi] at found, Or.inl (by decide)⟩

theorem respondHttp_cached_iff_sampleFiles :
    (∀ observed,
      Shows Answer.world (respondHttp (sampleFiles.system fun _ => 0) (sampleApi 100) ⟨none, []⟩ 5
          sampleView .default) observed ↔
        Shows Answer.world (respondHttp (sampleFiles.system fun _ => 0) (sampleApi 0) ⟨none, []⟩ 5
          sampleView .default) observed) ↔
      ∀ path stat content,
        sampleFiles.lookup (bytes "public" ++ cleanRoute sampleView.route) = some (path, stat) →
          sampleFiles.contents path = .readable content →
            sampleFiles.RouteReads sampleView path content := by
  apply respondHttp_cached_iff sampleFiles (fun _ => 0) (sampleApi 100) (sampleApi 0) sampleView 5
    .default rfl
  refine ⟨rfl, fun path stat found => ?_⟩
  have known := lookup_sampleView.symm.trans found
  simp only [Option.some.injEq, Prod.mk.injEq] at known
  obtain ⟨rfl, rfl⟩ := known
  exact ⟨⟨bytes "hi", rfl, canServe_sampleApi⟩, cannotCache_sampleApi⟩

/-- `GET /a.txt` gives the file from the cache and an empty body without it. -/
theorem not_cached_eq_uncached :
    ¬ ∀ observed,
      Shows Answer.world (respondHttp (sampleFiles.system fun _ => 0) (sampleApi 100) ⟨none, []⟩ 5
          sampleView .default) observed ↔
        Shows Answer.world (respondHttp (sampleFiles.system fun _ => 0) (sampleApi 0) ⟨none, []⟩ 5
          sampleView .default) observed := by
  intro agrees
  have silent : World.shown (⟨none, []⟩ : World (Option Bytes)) = none := rfl
  have seen := (shows_cached sampleFiles (fun _ => 0) silent rfl 5 .default lookup_sampleView rfl
    canServe_sampleApi).mpr rfl
  have unseen := (shows_uncached sampleFiles (fun _ => 0) silent rfl 5 .default lookup_sampleView
    cannotCache_sampleApi).mp ((agrees _).mp seen)
  have refused : sampleFiles.contents sampleView.route = .refused := rfl
  simp [refused, delivered, Observed.append, bytes] at unseen

end FileSystem

end Libjaypea
