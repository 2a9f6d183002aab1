import Libjaypea.Chunks
import Libjaypea.FileServing

/-!
# The chunks of a file

`respond_cached_file` finds its last chunk by a remainder and `respond_view`
by a short read.  For a file that is read undisturbed both send its chunks of
`BUFFER_LIMIT` bytes, the last of which may be empty.
-/

namespace Libjaypea

open Chunks Fuelled

theorem bufferLimit_pos : 0 < bufferLimit := by
  decide

namespace World

variable {σ : Type} {system : System σ} (world : World σ)

/-- What was sent behind a response so far. -/
def chunksSent : List Bytes :=
  world.events.filterMap fun event =>
    match event with
    | .sent data _ => some data
    | _ => none

@[simp]
theorem chunksSent_openFile (path : Bytes) :
    (world.openFile system path).2.chunksSent = world.chunksSent := by
  simp [chunksSent, openFile]

@[simp]
theorem chunksSent_read (fd : Int) : (world.read system fd).2.chunksSent = world.chunksSent := by
  simp [chunksSent, read]

@[simp]
theorem chunksSent_close (fd : Int) : (world.close system fd).2.chunksSent = world.chunksSent := by
  simp [chunksSent, close]

@[simp]
theorem chunksSent_send (fd : Int) (data : Bytes) :
    (world.send system fd data).2.chunksSent = world.chunksSent ++ [data] := by
  simp [chunksSent, send]

@[simp]
theorem chunksSent_respond (fd : Int) (response : HttpResponse) :
    (HttpApi.respond system world fd response).2.chunksSent = world.chunksSent := by
  simp [chunksSent, HttpApi.respond]

end World

namespace HttpApi

variable {σ : Type} {system : System σ}

/-- The offset and the size of every chunk that the loop of
`respond_cached_file` passes to `send`. -/
def cachedSlices (dataLength : Nat) : Nat → Nat → Nat → Option (List (Nat × Nat))
  | 0, _, _ => none
  | fuel + 1, offset, bufferSize =>
      if bufferSize = bufferLimit then
        let size :=
          if offset + bufferSize > dataLength then dataLength % bufferLimit else bufferSize
        (cachedSlices dataLength fuel (offset + size) size).map ((offset, size) :: ·)
      else some []

/-- The bytes of `data` at the offset and of the size. -/
def slice (data : Bytes) (position : Nat × Nat) : Bytes :=
  (data.drop position.1).take position.2

/-- Every send succeeds. -/
def SendsAll (system : System σ) : Prop :=
  ∀ fd data state, (system.send fd data state).1 = false

/-- Reading the file gives what is left of it, `BUFFER_LIMIT` bytes at a time. -/
structure ReadsFile (system : System σ) (fileFd : Int) (left : σ → Bytes) : Prop where
  read : ∀ state, (system.read fileFd bufferLimit state).1 = some ((left state).take bufferLimit)
  rest : ∀ state, left (system.read fileFd bufferLimit state).2 = (left state).drop bufferLimit
  send : ∀ fd data state, left (system.send fd data state).2 = left state

/-- The slices are chunks that lie inside the data. -/
theorem cachedSlices_converges (data : Bytes) {offset : Nat} (inside : offset ≤ data.length)
    (aligned : offset % bufferLimit = 0) :
    ∃ slices, Converges (fun fuel => cachedSlices data.length fuel offset bufferLimit) slices ∧
      slices.map (slice data) = chunks bufferLimit (data.drop offset) ∧
      ∀ position ∈ slices,
        position.1 + position.2 ≤ data.length ∧ position.2 ≤ bufferLimit := by
  induction rest : data.drop offset using chunk_induction bufferLimit_pos generalizing offset with
  | last tail short =>
      have length := congrArg List.length rest
      rw [List.length_drop] at length
      have beyond : offset + bufferLimit > data.length := by omega
      have size : data.length % bufferLimit = data.length - offset := by
        unfold bufferLimit at aligned beyond ⊢
        omega
      have notFull : data.length % bufferLimit ≠ bufferLimit :=
        Nat.ne_of_lt (Nat.mod_lt _ bufferLimit_pos)
      refine ⟨[(offset, data.length % bufferLimit)], ⟨2, ?_⟩, ?_, ?_⟩
      · simp only [cachedSlices, if_true, beyond, notFull, if_false, Option.map_some]
      · have whole : tail.take (data.length - offset) = tail :=
          List.take_of_length_le (Nat.le_of_eq length.symm)
        rw [List.map_singleton, slice, rest, size, whole, chunks_of_lt short]
      · intro position member
        rw [List.mem_singleton] at member
        rw [member, size]
        dsimp only
        omega
  | more tail long ih =>
      have length := congrArg List.length rest
      rw [List.length_drop] at length
      have within : ¬ offset + bufferLimit > data.length := by omega
      have next : data.drop (offset + bufferLimit) = tail.drop bufferLimit := by
        rw [← rest, List.drop_drop]
      obtain ⟨slices, ⟨fuel, later⟩, cut, bounded⟩ :=
        ih (by omega) (by rw [Nat.add_mod_right, aligned]) next
      refine ⟨(offset, bufferLimit) :: slices, ⟨fuel + 1, ?_⟩, ?_, ?_⟩
      · dsimp only at later
        simp only [cachedSlices, if_true, within, if_false, later, Option.map_some]
      · rw [List.map_cons, cut, slice, rest, chunks_of_le bufferLimit_pos long]
      · intro position member
        rcases List.mem_cons.mp member with rfl | behind
        · dsimp only
          omega
        · exact bounded position behind

/-- The loop of `respond_cached_file` sends the slices. -/
theorem sendChunks_slices (sends : SendsAll system) (fd : Int) (data : Bytes) (world : World σ)
    {fuel offset size : Nat} {slices : List (Nat × Nat)}
    (cut : cachedSlices data.length fuel offset size = some slices) :
    ∃ after, sendChunks system fd data fuel offset size world = some (true, after) ∧
      after.chunksSent = world.chunksSent ++ slices.map (slice data) := by
  induction fuel generalizing offset size world slices with
  | zero => cases cut
  | succ fuel ih =>
      rw [sendChunks_succ]
      rw [cachedSlices] at cut
      by_cases full : size = bufferLimit
      · rw [if_pos full] at cut ⊢
        dsimp only at cut ⊢
        obtain ⟨later, cutLater, rfl⟩ := Option.map_eq_some_iff.mp cut
        have succeeds : (world.send system fd ((data.drop offset).take
            (if offset + size > data.length then data.length % bufferLimit else size))).1 = false :=
          sends ..
        rw [succeeds, if_neg Bool.false_ne_true]
        obtain ⟨after, converges, sent⟩ := ih (world.send system fd ((data.drop offset).take
            (if offset + size > data.length then data.length % bufferLimit else size))).2 cutLater
        refine ⟨after, converges, ?_⟩
        rw [sent, World.chunksSent_send, List.append_assoc, List.map_cons]
        rfl
      · rw [if_neg full] at cut ⊢
        cases cut
        exact ⟨world, rfl, (List.append_nil _).symm⟩

/-- The loop of `respond_view` sends the chunks of what is left of the file. -/
theorem sendFile_chunks (sends : SendsAll system) (fd : Int) {fileFd : Int} (opened : 0 < fileFd)
    {left : σ → Bytes} (reads : ReadsFile system fileFd left) (world : World σ) :
    ∃ after, Converges (fun fuel => sendFile system fd fileFd fuel world) (true, after) ∧
      after.chunksSent = world.chunksSent ++ chunks bufferLimit (left world.state) := by
  induction remaining : left world.state using chunk_induction bufferLimit_pos
    generalizing world with
  | last data short =>
      have read : world.read system fileFd = (some data, (world.read system fileFd).2) := by
        have taken := reads.read world.state
        rw [remaining, List.take_of_length_le (Nat.le_of_lt short)] at taken
        exact Prod.ext taken rfl
      have succeeds : ((world.read system fileFd).2.send system fd data).1 = false := sends ..
      refine ⟨((world.read system fileFd).2.send system fd data).2, ⟨1, ?_⟩, ?_⟩
      · dsimp only
        rw [sendFile_succ, if_pos opened, read]
        simp only [succeeds, Bool.false_eq_true, if_false, short, if_true]
      · rw [World.chunksSent_send, World.chunksSent_read, chunks_of_lt short]
  | more data long ih =>
      have read : world.read system fileFd =
          (some (data.take bufferLimit), (world.read system fileFd).2) := by
        have taken := reads.read world.state
        rw [remaining] at taken
        exact Prod.ext taken rfl
      let next := ((world.read system fileFd).2.send system fd (data.take bufferLimit)).2
      have succeeds : ((world.read system fileFd).2.send system fd (data.take bufferLimit)).1 =
          false := sends ..
      have rest : left next.state = data.drop bufferLimit :=
        (reads.send ..).trans ((reads.rest world.state).trans (by rw [remaining]))
      obtain ⟨after, ⟨fuel, converges⟩, sent⟩ := ih next rest
      have full : ¬ (data.take bufferLimit).length < bufferLimit := by
        rw [List.length_take]
        omega
      refine ⟨after, ⟨fuel + 1, ?_⟩, ?_⟩
      · dsimp only
        rw [sendFile_succ, if_pos opened, read]
        simp only [succeeds, Bool.false_eq_true, if_false, full]
        exact converges
      · rw [sent, World.chunksSent_send, World.chunksSent_read, chunks_of_le bufferLimit_pos long,
          List.append_assoc]
        rfl

/-- What `respond_cached_file` sends behind its headers. -/
theorem respondCachedFile_chunks (sends : SendsAll system) (world : World σ) (fd : Int)
    (response : HttpResponse) (file : CachedFile) :
    ∃ answer slices, Converges (respondCachedFile system world fd response file) answer ∧
      Converges (fun fuel => cachedSlices file.dataLength fuel 0 bufferLimit) slices ∧
      answer.2.chunksSent = world.chunksSent ++ slices.map (slice (file.content system.heap)) ∧
      slices.map (slice (file.content system.heap)) =
        chunks bufferLimit (file.content system.heap) ∧
      ∀ position ∈ slices,
        position.1 + position.2 ≤ file.dataLength ∧ position.2 ≤ bufferLimit := by
  have length : (file.content system.heap).length = file.dataLength := by
    simp [CachedFile.content]
  obtain ⟨slices, ⟨fuel, cut⟩, equal, inside⟩ :=
    cachedSlices_converges (file.content system.heap) (Nat.zero_le _) (Nat.zero_mod bufferLimit)
  let headed := response.setHeader (bytes "Content-Length") (toString file.dataLength)
  obtain ⟨after, converges, sent⟩ := sendChunks_slices sends fd (file.content system.heap)
    (respond system world fd headed).2 cut
  rw [World.chunksSent_respond] at sent
  rw [length] at cut inside
  refine ⟨_, slices, converges_map.mpr ⟨_, ⟨fuel, converges⟩, rfl⟩, ⟨fuel, cut⟩, sent, equal, ?_⟩
  exact inside

/-- What `respond_view` sends behind its headers. -/
theorem respondView_chunks (sends : SendsAll system) {fileFd : Int} (opened : 0 < fileFd)
    {left : σ → Bytes} (reads : ReadsFile system fileFd left) (world : World σ) (fd : Int)
    (view : View) (response : HttpResponse)
    (opens : ((respond system world fd response).2.openFile system view.route).1 = fileFd) :
    ∃ answer, Converges (respondView system world fd view response) answer ∧
      answer.2.chunksSent = world.chunksSent ++ chunks bufferLimit
        (left ((respond system world fd response).2.openFile system view.route).2.state) := by
  have responds : ¬ (respond system world fd response).1 < 0 := by
    unfold respond
    simp only [sends fd]
    exact Int.not_lt.mpr (Int.natCast_nonneg _)
  obtain ⟨after, ⟨fuel, converges⟩, sent⟩ := sendFile_chunks sends fd opened reads
    ((respond system world fd response).2.openFile system view.route).2
  rw [World.chunksSent_openFile, World.chunksSent_respond] at sent
  let closed := after.close system fileFd
  refine ⟨if !closed.1 then (-1, closed.2)
    else ((withContentLength response).str.length + view.size, closed.2), ⟨fuel, ?_⟩, ?_⟩
  · unfold respondView
    dsimp only at converges ⊢
    rw [if_neg responds, opens, if_neg (Int.not_lt.mpr (Int.le_of_lt opened)), converges]
    rfl
  · have same : (if !closed.1 then (-1, closed.2)
        else ((withContentLength response).str.length + view.size, closed.2)).2 = closed.2 := by
      split <;> rfl
    rw [same, World.chunksSent_close, sent]

/-- A file that is served from a cache entry and from the disk is sent in the
same chunks. -/
theorem respond_chunks_agree (sends : SendsAll system) {file : CachedFile} {content : Bytes}
    (holds : file.content system.heap = content) {fileFd : Int} (opened : 0 < fileFd)
    {left : σ → Bytes} (reads : ReadsFile system fileFd left) (view : View) (fd other : Int)
    (response viewResponse : HttpResponse) (state viewState : σ)
    (opens : ((respond system ⟨viewState, []⟩ other viewResponse).2.openFile system
      view.route).1 = fileFd)
    (whole : left ((respond system ⟨viewState, []⟩ other viewResponse).2.openFile system
      view.route).2.state = content) :
    ∃ cached viewed slices,
      Converges (respondCachedFile system ⟨state, []⟩ fd response file) cached ∧
      Converges (respondView system ⟨viewState, []⟩ other view viewResponse) viewed ∧
      Converges (fun fuel => cachedSlices file.dataLength fuel 0 bufferLimit) slices ∧
      cached.2.chunksSent = viewed.2.chunksSent ∧
      cached.2.chunksSent = slices.map (slice content) ∧
      (∀ position ∈ slices, position.1 + position.2 ≤ content.length) ∧
      (∀ chunk ∈ cached.2.chunksSent, chunk.length ≤ bufferLimit) ∧
      cached.2.chunksSent.flatten = content := by
  have length : file.dataLength = content.length := by
    rw [← holds]
    simp [CachedFile.content]
  obtain ⟨cached, slices, cachedRuns, cuts, cachedSent, equal, inside⟩ :=
    respondCachedFile_chunks sends ⟨state, []⟩ fd response file
  obtain ⟨viewed, viewRuns, viewSent⟩ :=
    respondView_chunks sends opened reads ⟨viewState, []⟩ other view viewResponse opens
  rw [holds] at cachedSent equal
  rw [whole] at viewSent
  have cachedChunks : cached.2.chunksSent = chunks bufferLimit content := by
    rw [cachedSent, equal]
    rfl
  refine ⟨cached, viewed, slices, cachedRuns, viewRuns, cuts, ?_, cachedSent, ?_, ?_, ?_⟩
  · rw [cachedChunks, viewSent]
    rfl
  · intro position member
    rw [← length]
    exact (inside position member).1
  · intro chunk member
    rw [cachedChunks] at member
    exact length_le_of_mem_chunks bufferLimit_pos member
  · rw [cachedChunks]
    exact flatten_chunks bufferLimit_pos content

/-- A disk with one file; the state is what is left to read of it. -/
def onlyFile (content : Bytes) : System Bytes where
  lstat _ left := (some ⟨.regular, content.length, 0⟩, left)
  openFile _ _ := (3, content)
  read _ count left := (some (left.take count), left.drop count)
  close _ left := (true, left)
  send _ _ left := (false, left)
  heap := fun _ => 0

theorem onlyFile_readsFile (content : Bytes) (fileFd : Int) :
    ReadsFile (onlyFile content) fileFd id :=
  ⟨fun _ => rfl, fun _ => rfl, fun _ _ _ => rfl⟩

theorem respond_chunks_agree_onlyFile :
    ∃ cached viewed slices,
      Converges (respondCachedFile (onlyFile (bytes "hi")) ⟨[], []⟩ 5 .default
        ⟨fun i => (bytes "hi")[i]?, 2, 0⟩) cached ∧
      Converges (respondView (onlyFile (bytes "hi")) ⟨[], []⟩ 6
        ⟨bytes "a.txt", bytes "GET", [], 2⟩ .default) viewed ∧
      Converges (fun fuel => cachedSlices 2 fuel 0 bufferLimit) slices ∧
      cached.2.chunksSent = viewed.2.chunksSent ∧
      cached.2.chunksSent = slices.map (slice (bytes "hi")) ∧
      (∀ position ∈ slices, position.1 + position.2 ≤ (bytes "hi").length) ∧
      (∀ chunk ∈ cached.2.chunksSent, chunk.length ≤ bufferLimit) ∧
      cached.2.chunksSent.flatten = bytes "hi" :=
  respond_chunks_agree (fun _ _ _ => rfl) rfl (by decide : (0 : Int) < 3)
    (onlyFile_readsFile (bytes "hi") 3) ⟨bytes "a.txt", bytes "GET", [], 2⟩ 5 6 .default .default
    [] [] rfl rfl

end HttpApi

end Libjaypea
