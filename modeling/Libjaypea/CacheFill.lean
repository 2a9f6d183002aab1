import Libjaypea.CacheBudget
import Libjaypea.FileChunks

/-!
# Filling a cache entry

The loop that copies a file into its new cache entry writes behind each other
what the reads give, until one is short.  The size of the entry is the one
that `lstat` reported before, and nothing is undone when a call fails.
-/

namespace Libjaypea

open Fuelled

namespace CachedFile

theorem write_nil (file : CachedFile) (offset : Nat) : file.write offset [] = file := by
  have nowhere : ∀ i, ¬ (offset ≤ i ∧ i < offset) := by omega
  simp [write, nowhere]

/-- Two pieces that are written behind each other. -/
theorem write_write (file : CachedFile) (offset : Nat) (first second : Bytes) :
    (file.write offset first).write (offset + first.length) second =
      file.write offset (first ++ second) := by
  unfold write
  congr 1
  funext i
  rw [List.length_append]
  by_cases later : offset + first.length ≤ i ∧ i < offset + first.length + second.length
  · have inside : offset ≤ i ∧ i < offset + (first.length + second.length) := by omega
    rw [if_pos later, if_pos inside, List.getElem?_append_right (by omega)]
    congr 1
    omega
  · rw [if_neg later]
    dsimp only
    by_cases early : offset ≤ i ∧ i < offset + first.length
    · have inside : offset ≤ i ∧ i < offset + (first.length + second.length) := by omega
      rw [if_pos early, if_pos inside, List.getElem?_append_left (by omega)]
    · have outside : ¬ (offset ≤ i ∧ i < offset + (first.length + second.length)) := by omega
      rw [if_neg early, if_neg outside]

/-- An entry with nothing written yet. -/
def blank (size : Nat) (modified : Int) : CachedFile :=
  ⟨fun _ => none, size, modified⟩

theorem data_write_blank (size : Nat) (modified : Int) (data : Bytes) (i : Nat) :
    ((blank size modified).write 0 data).data i = data[i]? := by
  by_cases inside : i < data.length
  · simp [write, inside]
  · simp [write, blank, inside]

end CachedFile

namespace HttpApi

variable {σ : Type} {system : System σ} {fileFd : Int}

/-- The loop over a file reads the chunks; it goes on after a full one. -/
inductive Reading (system : System σ) (fileFd : Int) : σ → List Bytes → σ → Prop
  | nil (state : σ) : Reading system fileFd state [] state
  | cons {state middle last : σ} {chunk : Bytes} {chunks : List Bytes} (usable : 0 < fileFd)
      (answer : system.read fileFd bufferLimit state = (some chunk, middle))
      (goesOn : chunks ≠ [] → bufferLimit ≤ chunk.length)
      (later : Reading system fileFd middle chunks last) :
      Reading system fileFd state (chunk :: chunks) last

/-- The last chunk is short; a descriptor that is not positive is not read at all. -/
def Ended (fileFd : Int) (chunks : List Bytes) : Prop :=
  fileFd ≤ 0 ∨ ∃ chunk, chunks.getLast? = some chunk ∧ chunk.length < bufferLimit

/-- After full chunks a read fails. -/
def ReadFails (system : System σ) (fileFd : Int) (chunks : List Bytes) (last : σ) : Prop :=
  0 < fileFd ∧ (∀ chunk ∈ chunks, bufferLimit ≤ chunk.length) ∧
    (system.read fileFd bufferLimit last).1 = none

/-- The entry after so many rounds of the loop, which may have ended before. -/
def filling (system : System σ) (fileFd : Int) : Nat → Nat → CachedFile → σ → CachedFile
  | 0, _, file, _ => file
  | rounds + 1, offset, file, state =>
      if fileFd > 0 then
        match system.read fileFd bufferLimit state with
        | (none, _) => file
        | (some buffer, state) =>
            if buffer.length < bufferLimit then file.write offset buffer
            else
              filling system fileFd rounds (offset + buffer.length) (file.write offset buffer) state
      else file

theorem World.read_eq {world : World σ} {answer : Option Bytes} {next : σ}
    (answered : system.read fileFd bufferLimit world.state = (answer, next)) :
    world.read system fileFd = (answer, ⟨next, world.events ++ [.read fileFd answer]⟩) := by
  rw [World.read, answered]

/-- `filling` follows the loop. -/
theorem filling_of_fill {fuel offset : Nat} {file filled : CachedFile} {world after : World σ}
    {complete : Bool}
    (fills : fill system fileFd fuel offset file world = some (complete, filled, after)) :
    filling system fileFd fuel offset file world.state = filled := by
  induction fuel generalizing offset file world with
  | zero => cases fills
  | succ fuel ih =>
      rw [fill_succ] at fills
      unfold filling
      by_cases usable : fileFd > 0
      · rw [if_pos usable] at fills ⊢
        rcases answered : system.read fileFd bufferLimit world.state with ⟨answer, next⟩
        rw [World.read_eq answered] at fills
        cases answer with
        | none =>
            cases fills
            rfl
        | some buffer =>
            dsimp only at fills ⊢
            by_cases short : buffer.length < bufferLimit
            · rw [if_pos short] at fills ⊢
              cases fills
              rfl
            · rw [if_neg short] at fills ⊢
              exact ih fills
      · rw [if_neg usable] at fills ⊢
        cases fills
        rfl

/-- After any number of rounds the chunks read so far lie behind the offset. -/
theorem exists_reading_of_filling (rounds offset : Nat) (file : CachedFile) (state : σ) :
    ∃ chunks last, Reading system fileFd state chunks last ∧
      filling system fileFd rounds offset file state = file.write offset chunks.flatten := by
  induction rounds generalizing offset file state with
  | zero => exact ⟨[], state, .nil state, (file.write_nil offset).symm⟩
  | succ rounds ih =>
      unfold filling
      by_cases usable : fileFd > 0
      · rw [if_pos usable]
        rcases answered : system.read fileFd bufferLimit state with ⟨answer, next⟩
        cases answer with
        | none => exact ⟨[], state, .nil state, (file.write_nil offset).symm⟩
        | some buffer =>
            dsimp only
            by_cases short : buffer.length < bufferLimit
            · rw [if_pos short]
              exact ⟨[buffer], next, .cons usable answered (absurd rfl) (.nil next),
                by rw [List.flatten_singleton]⟩
            · rw [if_neg short]
              obtain ⟨chunks, last, reads, equal⟩ :=
                ih (offset + buffer.length) (file.write offset buffer) next
              refine ⟨buffer :: chunks, last, .cons usable answered (fun _ => by omega) reads, ?_⟩
              rw [equal, CachedFile.write_write, List.flatten_cons]
      · rw [if_neg usable]
        exact ⟨[], state, .nil state, (file.write_nil offset).symm⟩

/-- Whatever is read is written after as many rounds. -/
theorem filling_of_reading {state last : σ} {chunks : List Bytes}
    (reads : Reading system fileFd state chunks last) (offset : Nat) (file : CachedFile) :
    filling system fileFd chunks.length offset file state = file.write offset chunks.flatten := by
  induction reads generalizing offset file with
  | nil state => exact (file.write_nil offset).symm
  | @cons state middle last chunk chunks usable answer goesOn later ih =>
      rw [List.length_cons, filling, if_pos usable, answer]
      dsimp only
      by_cases short : chunk.length < bufferLimit
      · have alone : chunks = [] := by
          by_contra more
          exact absurd (goesOn more) (by omega)
        rw [if_pos short, alone, List.flatten_singleton]
      · rw [if_neg short, ih, CachedFile.write_write, List.flatten_cons]

theorem ended_cons {chunk : Bytes} {chunks : List Bytes} (ended : Ended fileFd chunks) :
    Ended fileFd (chunk :: chunks) := by
  rcases ended with closed | ⟨final, found, short⟩
  · exact .inl closed
  · refine .inr ⟨final, ?_, short⟩
    rw [List.getLast?_cons, found]
    rfl

/-- What the loop has read when it ends. -/
theorem exists_reading_of_fill {fuel offset : Nat} {file filled : CachedFile}
    {world after : World σ} {complete : Bool}
    (fills : fill system fileFd fuel offset file world = some (complete, filled, after)) :
    ∃ chunks last, Reading system fileFd world.state chunks last ∧
      filled = file.write offset chunks.flatten ∧
      (complete = true → Ended fileFd chunks ∧ after.state = last) ∧
      (complete = false → ReadFails system fileFd chunks last) := by
  induction fuel generalizing offset file world with
  | zero => cases fills
  | succ fuel ih =>
      rw [fill_succ] at fills
      by_cases usable : fileFd > 0
      · rw [if_pos usable] at fills
        rcases answered : system.read fileFd bufferLimit world.state with ⟨answer, next⟩
        rw [World.read_eq answered] at fills
        cases answer with
        | none =>
            cases fills
            refine ⟨[], _, .nil _, (CachedFile.write_nil _ _).symm, ?_, fun _ => ?_⟩
            · exact fun impossible => by cases impossible
            · exact ⟨usable, List.forall_mem_nil _, congrArg Prod.fst answered⟩
        | some buffer =>
            dsimp only at fills
            by_cases short : buffer.length < bufferLimit
            · rw [if_pos short] at fills
              cases fills
              refine ⟨[buffer], next, .cons usable answered (absurd rfl) (.nil next), ?_, ?_, ?_⟩
              · rw [List.flatten_singleton]
              · exact fun _ => ⟨.inr ⟨buffer, rfl, short⟩, rfl⟩
              · exact fun impossible => by cases impossible
            · rw [if_neg short] at fills
              obtain ⟨chunks, last, reads, equal, ends, fails⟩ := ih fills
              refine ⟨buffer :: chunks, last, .cons usable answered (fun _ => by omega) reads,
                ?_, ?_, ?_⟩
              · rw [equal, CachedFile.write_write, List.flatten_cons]
              · exact fun complete => ⟨ended_cons (ends complete).1, (ends complete).2⟩
              · intro failed
                obtain ⟨_, full, fails⟩ := fails failed
                exact ⟨usable, List.forall_mem_cons.mpr ⟨by omega, full⟩, fails⟩
      · rw [if_neg usable] at fills
        cases fills
        refine ⟨[], _, .nil _, (CachedFile.write_nil _ _).symm, ?_, ?_⟩
        · exact fun _ => ⟨.inl (by omega), rfl⟩
        · exact fun impossible => by cases impossible

/-- Reads that end the loop do so. -/
theorem fill_of_reading (world : World σ) {chunks : List Bytes} {last : σ}
    (reads : Reading system fileFd world.state chunks last) (offset : Nat) (file : CachedFile) :
    (Ended fileFd chunks → ∃ fuel after, after.state = last ∧
      fill system fileFd fuel offset file world =
        some (true, file.write offset chunks.flatten, after)) ∧
    (ReadFails system fileFd chunks last → ∃ fuel filled after,
      fill system fileFd fuel offset file world = some (false, filled, after)) := by
  generalize begins : world.state = state at reads
  induction reads generalizing offset file world with
  | nil state =>
      constructor
      · rintro (closed | ⟨chunk, impossible, -⟩)
        · refine ⟨1, world, begins, ?_⟩
          rw [fill_succ, if_neg (by omega), List.flatten_nil, CachedFile.write_nil]
        · cases impossible
      · rintro ⟨usable, -, fails⟩
        refine ⟨1, file, (world.read system fileFd).2, ?_⟩
        rw [← begins] at fails
        have read : world.read system fileFd = (none, (world.read system fileFd).2) :=
          Prod.ext fails rfl
        rw [fill_succ, if_pos usable, read]
  | @cons state middle last chunk chunks usable answer goesOn later ih =>
      have read : world.read system fileFd =
          (some chunk, ⟨middle, world.events ++ [.read fileFd (some chunk)]⟩) :=
        World.read_eq (begins ▸ answer)
      by_cases short : chunk.length < bufferLimit
      · have alone : chunks = [] := by
          by_contra more
          exact absurd (goesOn more) (by omega)
        subst alone
        cases later
        constructor
        · intro _
          refine ⟨1, ⟨middle, world.events ++ [.read fileFd (some chunk)]⟩, rfl, ?_⟩
          rw [fill_succ, if_pos usable, read]
          dsimp only
          rw [if_pos short, List.flatten_singleton]
        · rintro ⟨-, full, -⟩
          exact absurd (full chunk List.mem_cons_self) (by omega)
      · have next := @ih ⟨middle, world.events ++ [.read fileFd (some chunk)]⟩
          (offset + chunk.length) (file.write offset chunk) rfl
        constructor
        · intro ended
          have endedLater : Ended fileFd chunks := by
            rcases ended with closed | ⟨final, found, small⟩
            · exact absurd closed (by omega)
            · cases chunks with
              | nil =>
                  cases found
                  exact absurd small short
              | cons second others => exact .inr ⟨final, found, small⟩
          obtain ⟨fuel, after, ends, fills⟩ := next.1 endedLater
          refine ⟨fuel + 1, after, ends, ?_⟩
          rw [fill_succ, if_pos usable, read]
          dsimp only
          rw [if_neg short, fills, CachedFile.write_write, List.flatten_cons]
        · rintro ⟨_, full, fails⟩
          obtain ⟨fuel, filled, after, fills⟩ :=
            next.2 ⟨usable, (List.forall_mem_cons.mp full).2, fails⟩
          refine ⟨fuel + 1, filled, after, ?_⟩
          rw [fill_succ, if_pos usable, read]
          dsimp only
          rw [if_neg short, fills]

/-- The loop writes inside the entry only, and when it succeeds every byte of
the entry was read from the file. -/
structure CopiesFile (system : System σ) (fileFd : Int) (state : σ) (size : Nat) (modified : Int) :
    Prop where
  inside : ∀ rounds i,
    (filling system fileFd rounds 0 (.blank size modified) state).data i ≠ none → i < size
  whole : ∀ fuel events filled after,
    fill system fileFd fuel 0 (.blank size modified) ⟨state, events⟩ =
      some (true, filled, after) →
    ∃ chunks last, Reading system fileFd state chunks last ∧
      ∀ i < size, ∃ byte, chunks.flatten[i]? = some byte ∧ filled.data i = some byte

/-- The file has as many bytes to read as `lstat` said. -/
structure DeliversSize (system : System σ) (fileFd : Int) (state : σ) (size : Nat) : Prop where
  atMost : ∀ chunks last, Reading system fileFd state chunks last → chunks.flatten.length ≤ size
  atLeast : ∀ chunks last, Reading system fileFd state chunks last → Ended fileFd chunks →
    size ≤ chunks.flatten.length

/-- The entry is a copy of the file exactly when the reads give the bytes that
`lstat` counted. -/
theorem copiesFile_iff (system : System σ) (fileFd : Int) (state : σ) (size : Nat) (modified : Int) :
    CopiesFile system fileFd state size modified ↔ DeliversSize system fileFd state size := by
  constructor
  · rintro ⟨inside, whole⟩
    constructor
    · intro chunks last reads
      by_contra grown
      have written := inside chunks.length size
      rw [filling_of_reading reads, CachedFile.data_write_blank,
        List.getElem?_eq_getElem (by omega)] at written
      exact absurd (written (Option.some_ne_none _)) (Nat.lt_irrefl size)
    · intro chunks last reads ended
      by_contra shrunk
      obtain ⟨fuel, after, -, fills⟩ :=
        (fill_of_reading ⟨state, []⟩ reads 0 (.blank size modified)).1 ended
      obtain ⟨_, _, _, copied⟩ := whole fuel [] _ after fills
      obtain ⟨byte, -, found⟩ := copied chunks.flatten.length (by omega)
      rw [CachedFile.data_write_blank, List.getElem?_eq_none (Nat.le_refl _)] at found
      cases found
  · rintro ⟨atMost, atLeast⟩
    constructor
    · intro rounds i written
      obtain ⟨chunks, last, reads, equal⟩ :=
        @exists_reading_of_filling σ system fileFd rounds 0 (.blank size modified) state
      rw [equal, CachedFile.data_write_blank, ne_eq, List.getElem?_eq_none_iff] at written
      have bound := atMost chunks last reads
      omega
    · intro fuel events filled after fills
      obtain ⟨chunks, last, reads, rfl, ends, -⟩ := exists_reading_of_fill fills
      have enough := atLeast chunks last reads (ends rfl).1
      refine ⟨chunks, last, reads, fun i inside => ?_⟩
      have within : i < chunks.flatten.length := by omega
      refine ⟨chunks.flatten[i], List.getElem?_eq_getElem within, ?_⟩
      rw [CachedFile.data_write_blank, List.getElem?_eq_getElem within]

/-- A file that had one byte when `lstat` looked, and has two now. -/
theorem not_copiesFile_grown :
    ¬ ∀ (system : System Bytes) (fileFd : Int) (state : Bytes) (size : Nat) (modified : Int),
      CopiesFile system fileFd state size modified := by
  intro copies
  have outside := (copies (onlyFile (bytes "hi")) 3 (bytes "hi") 1 0).inside 1 1
  exact absurd (outside (Option.some_ne_none (ch 'i'))) (Nat.lt_irrefl 1)

/-- Opening the file, reading it or closing it fails. -/
def FillFails (system : System σ) (state : σ) (path : Bytes) : Prop :=
  let opened := system.openFile path state
  opened.1 < 0 ∨ ∃ chunks last, Reading system opened.1 opened.2 chunks last ∧
    (ReadFails system opened.1 chunks last ∨
      Ended opened.1 chunks ∧ (system.close opened.1 last).1 = false)

theorem cacheFile_fails_iff (api : HttpApi σ) (world : World σ) (path : Bytes) (stat : Stat) :
    (∃ fuel cached after,
      cacheFile system api world path stat fuel = some (false, cached, after)) ↔
      FillFails system world.state path := by
  unfold FillFails cacheFile
  dsimp only
  by_cases refused : (world.openFile system path).1 < 0
  · simp only [if_pos refused]
    exact iff_of_true ⟨0, _, _, rfl⟩ (.inl refused)
  · simp only [if_neg refused, Option.map_eq_some_iff]
    constructor
    · rintro ⟨fuel, cached, after, ⟨complete, filled, read⟩, fills, stored⟩
      obtain ⟨chunks, last, reads, -, ends, fails⟩ := exists_reading_of_fill fills
      refine .inr ⟨chunks, last, reads, ?_⟩
      cases complete with
      | false => exact .inl (fails rfl)
      | true =>
          obtain ⟨ended, rfl⟩ := ends rfl
          exact .inr ⟨ended, congrArg Prod.fst stored⟩
    · rintro (impossible | ⟨chunks, last, reads, fails | ⟨ended, unclosed⟩⟩)
      · exact absurd impossible refused
      · obtain ⟨fuel, filled, after, fills⟩ :=
          (fill_of_reading (world.openFile system path).2 reads 0 _).2 fails
        exact ⟨fuel, _, _, _, fills, rfl⟩
      · obtain ⟨fuel, after, rfl, fills⟩ :=
          (fill_of_reading (world.openFile system path).2 reads 0 _).1 ended
        exact ⟨fuel, _, (after.close system (world.openFile system path).1).2, _, fills,
          Prod.ext unclosed rfl⟩

/-- `respond_http` finds the file and tries to cache it. -/
structure Attempts (system : System σ) (api : HttpApi σ) (world : World σ) (view : View)
    (path : Bytes) (stat : Stat) (found : World σ) : Prop where
  resolved : resolve system world (api.publicDirectory ++ cleanRoute view.route) =
    (some (path, stat), found)
  fetches : view.method ≠ bytes "HEAD"
  absent : KeyedList.contains (dropModified api path stat).fileCache path = false
  room : api.fileCacheRemainingBytes > stat.size
  free : api.fileCacheMutex = false

section Attempt

variable {api : HttpApi σ} {world found : World σ} {view : View} {path : Bytes} {stat : Stat}

/-- A failed attempt ends the request with the new entry in the cache. -/
theorem Attempts.respondHttp_of_fails (attempts : Attempts system api world view path stat found)
    (fd : Int) (response : HttpResponse) {fuel : Nat} {cached : HttpApi σ} {after : World σ}
    (fails : cacheFile system (dropModified api path stat) found path stat fuel =
      some (false, cached, after)) :
    respondHttp system api world fd view response fuel = some ⟨-1, cached, after⟩ := by
  have room := attempts.room
  have tries : (!KeyedList.contains (dropModified api path stat).fileCache path) = true ∧
      (dropModified api path stat).fileCacheRemainingBytes > stat.size ∧
      (!(dropModified api path stat).fileCacheMutex) = true := by
    rw [attempts.absent, fileCacheRemainingBytes_dropModified, fileCacheMutex_dropModified,
      attempts.free]
    exact ⟨rfl, room, rfl⟩
  unfold respondHttp
  rw [attempts.resolved]
  dsimp only
  rw [if_neg attempts.fetches, if_pos tries, fails]
  rfl

theorem fileCache_store_ne {file : CachedFile}
    (absent : KeyedList.contains api.fileCache path = false) :
    (store api path file).fileCache ≠ api.fileCache := by
  intro same
  have entry : KeyedList.get? (store api path file).fileCache path = some file :=
    KeyedList.get?_set_self _ _ _
  rw [same] at entry
  rw [KeyedList.contains, entry] at absent
  cases absent

/-- An attempt to cache a file never fails and leaves something behind exactly
when opening, reading and closing the file succeed. -/
theorem failedFill_untouched_iff (attempts : Attempts system api world view path stat found)
    (fd : Int) (response : HttpResponse) :
    (∀ fuel answer, respondHttp system api world fd view response fuel = some answer →
      (∃ cached after, cacheFile system (dropModified api path stat) found path stat fuel =
        some (false, cached, after)) →
      answer.api.fileCache = (dropModified api path stat).fileCache ∧
        answer.api.fileCacheRemainingBytes = api.fileCacheRemainingBytes) ↔
      ¬ FillFails system found.state path := by
  rw [← cacheFile_fails_iff (dropModified api path stat) found path stat]
  constructor
  · rintro untouched ⟨fuel, cached, after, fails⟩
    have runs := attempts.respondHttp_of_fails fd response fails
    obtain ⟨same, -⟩ := untouched fuel _ runs ⟨cached, after, fails⟩
    obtain ⟨file, -, rfl⟩ := cacheFile_stores fails
    exact fileCache_store_ne attempts.absent same
  · rintro succeeds fuel answer - ⟨cached, after, fails⟩
    exact absurd ⟨fuel, cached, after, fails⟩ succeeds

end Attempt

theorem attempts_onlyFile :
    Attempts (onlyFile (bytes "hi")) ⟨bytes "public", [], 100, false, [], []⟩ ⟨[], []⟩
      ⟨bytes "/a.txt", bytes "GET", [], 0⟩ (bytes "public/a.txt") ⟨.regular, 2, 0⟩
      ⟨[], [.lstat (bytes "public/a.txt")]⟩ :=
  ⟨rfl, by decide, rfl, by decide, rfl⟩

theorem failedFill_untouched_iff_onlyFile :
    (∀ fuel answer, respondHttp (onlyFile (bytes "hi"))
        ⟨bytes "public", [], 100, false, [], []⟩ ⟨[], []⟩ 5 ⟨bytes "/a.txt", bytes "GET", [], 0⟩
        .default fuel = some answer →
      (∃ cached after, cacheFile (onlyFile (bytes "hi"))
        ⟨bytes "public", [], 100, false, [], []⟩ ⟨[], [.lstat (bytes "public/a.txt")]⟩
        (bytes "public/a.txt") ⟨.regular, 2, 0⟩ fuel = some (false, cached, after)) →
      answer.api.fileCache = [] ∧ answer.api.fileCacheRemainingBytes = 100) ↔
      ¬ FillFails (onlyFile (bytes "hi")) [] (bytes "public/a.txt") :=
  failedFill_untouched_iff attempts_onlyFile 5 .default

/-- A disk on which no file can be opened. -/
def refusing : System Unit where
  lstat _ _ := (some ⟨.regular, 2, 0⟩, ())
  openFile _ _ := (-1, ())
  read _ _ _ := (none, ())
  close _ _ := (true, ())
  send _ _ _ := (false, ())
  heap := fun _ => 0

/-- The failed request leaves an entry of two bytes that were never written. -/
theorem not_failedFill_untouched :
    ¬ ∀ (system : System Unit) (api : HttpApi Unit) (world found : World Unit) (view : View)
        (path : Bytes) (stat : Stat), Attempts system api world view path stat found →
      ∀ fd response fuel answer, respondHttp system api world fd view response fuel = some answer →
        (∃ cached after, cacheFile system (dropModified api path stat) found path stat fuel =
          some (false, cached, after)) →
        answer.api.fileCache = (dropModified api path stat).fileCache ∧
          answer.api.fileCacheRemainingBytes = api.fileCacheRemainingBytes := by
  intro untouched
  have attempts : Attempts refusing ⟨bytes "public", [], 100, false, [], []⟩ ⟨(), []⟩
      ⟨bytes "/a.txt", bytes "GET", [], 0⟩ (bytes "public/a.txt") ⟨.regular, 2, 0⟩
      ⟨(), [.lstat (bytes "public/a.txt")]⟩ := ⟨rfl, by decide, rfl, by decide, rfl⟩
  obtain ⟨-, remaining⟩ := untouched _ _ _ _ _ _ _ attempts 5 .default 0 _ rfl ⟨_, _, rfl⟩
  revert remaining
  decide

end HttpApi

end Libjaypea
