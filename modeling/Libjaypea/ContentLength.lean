import Libjaypea.CacheFill
import Libjaypea.HttpDispatch
import Libjaypea.TemplateRendering

/-!
# The length of a response

A client takes the first response it receives for its headers and counts the
bytes behind them.  Every way of serving a file announces what it sends except
`respond_view`, which sends the headers of an empty response and the file
behind them.
-/

namespace Libjaypea

open Fuelled Template

/-- The first response that was sent, and the number of bytes behind its header block. -/
structure Delivered where
  response : HttpResponse
  behind : Nat

namespace Delivered

def contentLength (delivered : Delivered) : Option Bytes :=
  KeyedList.get? delivered.response.headers (bytes "Content-Length")

def deliver : Option Delivered → Event → Option Delivered
  | none, .responded response _ => some ⟨response, response.body.length⟩
  | some delivered, .responded response _ =>
      some { delivered with behind := delivered.behind + response.str.length }
  | some delivered, .sent data _ =>
      some { delivered with behind := delivered.behind + data.length }
  | delivered, _ => delivered

/-- The header announces as many bytes as follow. -/
def Matches (delivered : Delivered) : Prop :=
  delivered.contentLength = some (HttpApi.toString delivered.behind)

instance (delivered : Delivered) : Decidable delivered.Matches :=
  inferInstanceAs (Decidable (_ = _))

end Delivered

/-- A response or a chunk that could not be sent. -/
def Event.Unsent : Event → Prop
  | .responded _ failed => failed = true
  | .sent _ failed => failed = true
  | _ => False

namespace World

variable {σ : Type} (system : System σ) (world : World σ)

def delivered : Option Delivered :=
  world.events.foldl Delivered.deliver none

/-- All sends succeed. -/
def AllSent : Prop :=
  ∀ event ∈ world.events, ¬ event.Unsent

theorem delivered_concat (state : σ) (event : Event) :
    delivered ⟨state, world.events ++ [event]⟩ = Delivered.deliver world.delivered event := by
  rw [delivered, List.foldl_concat]
  rfl

section Calls

variable {world}

/-- Calls that send nothing. -/
theorem delivered_silent {state : σ} {event : Event}
    (silent : ∀ delivered, Delivered.deliver delivered event = delivered) :
    delivered ⟨state, world.events ++ [event]⟩ = world.delivered := by
  rw [delivered_concat, silent]

variable (world)

@[simp]
theorem delivered_lstat (path : Bytes) : (world.lstat system path).2.delivered = world.delivered :=
  delivered_silent fun delivered => by cases delivered <;> rfl

@[simp]
theorem delivered_openFile (path : Bytes) :
    (world.openFile system path).2.delivered = world.delivered :=
  delivered_silent fun delivered => by cases delivered <;> rfl

@[simp]
theorem delivered_read (fd : Int) : (world.read system fd).2.delivered = world.delivered :=
  delivered_silent fun delivered => by cases delivered <;> rfl

@[simp]
theorem delivered_close (fd : Int) : (world.close system fd).2.delivered = world.delivered :=
  delivered_silent fun delivered => by cases delivered <;> rfl

variable {world} {delivered : Delivered}

theorem delivered_send (begun : world.delivered = some delivered) (fd : Int) (data : Bytes) :
    (world.send system fd data).2.delivered =
      some ⟨delivered.response, delivered.behind + data.length⟩ := by
  refine (delivered_concat world _ _).trans ?_
  rw [begun]
  rfl

theorem delivered_respond (silent : world.delivered = none) (fd : Int) (response : HttpResponse) :
    (HttpApi.respond system world fd response).2.delivered =
      some ⟨HttpApi.withContentLength response, response.body.length⟩ := by
  refine (delivered_concat world _ _).trans ?_
  rw [silent, ← HttpApi.body_withContentLength response]
  rfl

variable {system}

theorem send_succeeds {fd : Int} {data : Bytes} (sent : (world.send system fd data).2.AllSent) :
    (world.send system fd data).1 = false := by
  have last := sent (.sent data (world.send system fd data).1) List.mem_concat_self
  exact Bool.eq_false_iff.mpr last

theorem respond_succeeds {fd : Int} {response : HttpResponse}
    (sent : (HttpApi.respond system world fd response).2.AllSent) :
    ¬ (HttpApi.respond system world fd response).1 < 0 := by
  have last := sent (.responded (HttpApi.withContentLength response)
    (system.send fd (HttpApi.withContentLength response).str world.state).1) List.mem_concat_self
  have succeeds : (system.send fd (HttpApi.withContentLength response).str world.state).1 = false :=
    Bool.eq_false_iff.mpr last
  unfold HttpApi.respond
  dsimp only
  rw [succeeds, if_neg Bool.false_ne_true]
  exact Int.not_lt.mpr (Int.natCast_nonneg _)

end Calls

end World

namespace HttpApi

variable {σ : Type} {system : System σ} {world after : World σ}

section Loops

variable {fd fileFd : Int} {fuel : Nat} {complete : Bool} {delivered : Delivered}

/-- The first read of the loop of `respond_view` gives bytes. -/
def FirstChunk (system : System σ) (fileFd : Int) (world : World σ) : Prop :=
  0 < fileFd ∧ ∃ data, (world.read system fileFd).1 = some data ∧ data ≠ []

/-- The loop of `respond_cached_file` sends what is left of the data. -/
theorem delivered_sendChunks {data : Bytes} {offset : Nat} (inside : offset ≤ data.length)
    (aligned : offset % bufferLimit = 0)
    (runs : sendChunks system fd data fuel offset bufferLimit world = some (complete, after))
    (sent : after.AllSent) (begun : world.delivered = some delivered) :
    after.delivered =
      some ⟨delivered.response, delivered.behind + (data.length - offset)⟩ := by
  induction fuel generalizing offset world delivered with
  | zero => cases runs
  | succ fuel ih =>
      rw [sendChunks_succ, if_pos rfl] at runs
      dsimp only at runs
      by_cases last : offset + bufferLimit > data.length
      · have size : data.length % bufferLimit = data.length - offset := by
          unfold bufferLimit at aligned last ⊢
          omega
        have notFull : data.length % bufferLimit ≠ bufferLimit :=
          Nat.ne_of_lt (Nat.mod_lt _ bufferLimit_pos)
        have chunk : (data.drop offset).take (data.length % bufferLimit) = data.drop offset := by
          rw [size, List.take_of_length_le (Nat.le_of_eq List.length_drop)]
        rw [if_pos last, chunk] at runs
        have ends : after = (world.send system fd (data.drop offset)).2 := by
          split_ifs at runs
          · cases runs
            rfl
          · cases fuel with
            | zero => cases runs
            | succ fuel =>
                rw [sendChunks_succ, if_neg notFull] at runs
                cases runs
                rfl
        rw [ends, World.delivered_send system begun, List.length_drop]
      · rw [if_neg last] at runs
        split_ifs at runs with failed
        · cases runs
          rw [World.send_succeeds sent] at failed
          cases failed
        · have chunk : ((data.drop offset).take bufferLimit).length = bufferLimit := by
            rw [List.length_take, List.length_drop]
            omega
          have next := World.delivered_send system begun fd ((data.drop offset).take bufferLimit)
          have total : delivered.behind + bufferLimit + (data.length - (offset + bufferLimit)) =
              delivered.behind + (data.length - offset) := by omega
          rw [ih (by omega) (by rw [Nat.add_mod_right, aligned]) runs next, chunk]
          dsimp only
          rw [total]

/-- The loop of `respond_view` sends something exactly when its first read does. -/
theorem delivered_sendFile
    (runs : sendFile system fd fileFd fuel world = some (complete, after)) (sent : after.AllSent)
    (begun : world.delivered = some delivered) :
    ∃ count, after.delivered = some ⟨delivered.response, delivered.behind + count⟩ ∧
      (count = 0 ↔ ¬ FirstChunk system fileFd world) := by
  induction fuel generalizing world delivered with
  | zero => cases runs
  | succ fuel ih =>
      rw [sendFile_succ] at runs
      by_cases usable : fileFd > 0
      · rw [if_pos usable] at runs
        have begunRead := (World.delivered_read system world fileFd).trans begun
        rcases read : world.read system fileFd with ⟨answer, next⟩
        rw [read] at runs begunRead
        cases answer with
        | none =>
            cases runs
            refine ⟨0, begunRead, iff_of_true rfl ?_⟩
            rintro ⟨-, data, found, -⟩
            rw [read] at found
            cases found
        | some buffer =>
            have first : FirstChunk system fileFd world ↔ buffer ≠ [] := by
              rw [FirstChunk, read]
              constructor
              · rintro ⟨-, data, found, nonempty⟩
                cases found
                exact nonempty
              · exact fun nonempty => ⟨usable, buffer, rfl, nonempty⟩
            have begunSend := World.delivered_send system begunRead fd buffer
            dsimp only at runs
            split_ifs at runs with failed short
            · cases runs
              rw [World.send_succeeds sent] at failed
              cases failed
            · cases runs
              refine ⟨buffer.length, begunSend, ?_⟩
              rw [first, not_not, List.length_eq_zero_iff]
            · obtain ⟨count, shown, -⟩ := ih runs begunSend
              refine ⟨buffer.length + count, ?_, iff_of_false ?_ ?_⟩
              · rw [shown, Nat.add_assoc]
              · unfold bufferLimit at short
                omega
              · rw [first, not_not]
                rintro rfl
                exact short bufferLimit_pos
      · rw [if_neg usable] at runs
        cases runs
        exact ⟨0, begun, iff_of_true rfl fun first => usable first.1⟩

theorem delivered_fill {offset : Nat} {file filled : CachedFile}
    (runs : fill system fileFd fuel offset file world = some (complete, filled, after)) :
    after.delivered = world.delivered := by
  have reads (next : World σ) (same : next.delivered = world.delivered) :
      (next.read system fileFd).2.delivered = world.delivered :=
    (World.delivered_read system next fileFd).trans same
  exact fill_keeps reads rfl runs

end Loops

section Calls

variable {api : HttpApi σ} {path : Bytes} {stat : Stat} {fuel : Nat}

theorem delivered_cacheFile {filled : Bool} {cached : HttpApi σ}
    (runs : cacheFile system api world path stat fuel = some (filled, cached, after)) :
    after.delivered = world.delivered := by
  have opened := World.delivered_openFile system world path
  unfold cacheFile at runs
  dsimp only at runs
  split_ifs at runs
  · cases runs
    exact opened
  · obtain ⟨⟨complete, file, read⟩, fills, stored⟩ := Option.map_eq_some_iff.mp runs
    have copied := (delivered_fill fills).trans opened
    dsimp only at stored
    split_ifs at stored
    · cases stored
      exact copied
    · cases stored
      exact (World.delivered_close system read _).trans copied

theorem delivered_resolve (world : World σ) (path : Bytes) :
    (resolve system world path).2.delivered = world.delivered := by
  have first := World.delivered_lstat system world path
  unfold resolve
  rcases looked : world.lstat system path with ⟨answer, next⟩
  rw [looked] at first
  cases answer with
  | none => exact first
  | some stat =>
      dsimp only
      split_ifs
      · have second := World.delivered_lstat system next (path ++ bytes "/index.html")
        rcases lookedAgain : next.lstat system (path ++ bytes "/index.html") with ⟨answer, last⟩
        rw [lookedAgain] at second
        cases answer with
        | none => exact second.trans first
        | some stat => exact second.trans first
      · exact first
      · exact first

end Calls

theorem ofNat_ch {digit : Char} (isDigit : digit.isDigit) :
    Char.ofNat (ch digit).toNat = digit := by
  have small : digit.toNat < 256 := by
    rw [Char.isDigit, Bool.and_eq_true, decide_eq_true_iff, decide_eq_true_iff] at isDigit
    have bound : digit.toNat ≤ 57 := UInt32.le_iff_toNat_le.mp isDigit.2
    omega
  have value : (ch digit).toNat = digit.toNat := by
    rw [ch, Char.toUInt8, UInt32.toNat_toUInt8]
    exact Nat.mod_eq_of_lt small
  rw [value, Char.ofNat_toNat]

/-- The decimal digits tell the numbers apart. -/
theorem toString_inj {first second : Nat} : toString first = toString second ↔ first = second := by
  have digits (number : Nat) :
      (toString number).map (fun byte => Char.ofNat byte.toNat) = Nat.toDigits 10 number := by
    rw [toString, bytes, Nat.toList_repr, List.map_map]
    refine (List.map_congr_left ?_).trans (List.map_id _)
    intro digit member
    exact ofNat_ch (Nat.isDigit_of_mem_toDigits (by decide) (by decide) member)
  constructor
  · intro equal
    rw [← @Nat.ofDigitChars_ten_toDigits first, ← digits first, equal, digits second,
      Nat.ofDigitChars_ten_toDigits]
  · rintro rfl
    rfl

section Responses

/-- Nothing is announced yet, and there is no body. -/
structure Fresh (response : HttpResponse) : Prop where
  unannounced : KeyedList.get? response.headers (bytes "Content-Length") = none
  empty : response.body = []

theorem Fresh.setHeader {response : HttpResponse} (fresh : Fresh response) {name : Bytes}
    (different : name ≠ bytes "Content-Length") (value : Bytes) :
    Fresh (response.setHeader name value) where
  unannounced := (KeyedList.get?_set_of_ne _ different value).trans fresh.unannounced
  empty := fresh.empty

theorem contentLength_withContentLength {response : HttpResponse}
    (unannounced : KeyedList.get? response.headers (bytes "Content-Length") = none) :
    KeyedList.get? (withContentLength response).headers (bytes "Content-Length") =
      some (toString response.body.length) := by
  unfold withContentLength
  rw [KeyedList.contains, unannounced, if_neg (by decide)]
  exact KeyedList.get?_set_self _ _ _

theorem withContentLength_setHeader (response : HttpResponse) (value : Bytes) :
    withContentLength (response.setHeader (bytes "Content-Length") value) =
      response.setHeader (bytes "Content-Length") value := by
  unfold withContentLength
  apply if_pos
  rw [KeyedList.contains, HttpResponse.setHeader, KeyedList.get?_set_self]
  rfl

end Responses

end HttpApi

/-- The client has been told one number of bytes and was sent another. -/
def World.Carries {σ : Type} (world : World σ) (announced count : Nat) : Prop :=
  ∃ response, world.delivered = some ⟨response, count⟩ ∧
    KeyedList.get? response.headers (bytes "Content-Length") = some (HttpApi.toString announced)

namespace World

variable {σ : Type} {world : World σ} {announced count : Nat}

/-- The header of the first response. -/
def contentLength (world : World σ) : Option Bytes :=
  world.delivered.bind Delivered.contentLength

theorem Carries.contentLength_eq (carries : world.Carries announced count) :
    world.contentLength = some (HttpApi.toString announced) := by
  obtain ⟨response, shown, header⟩ := carries
  rw [contentLength, shown]
  exact header

theorem Carries.unique {other otherCount : Nat} (carries : world.Carries announced count)
    (others : world.Carries other otherCount) : announced = other := by
  have same := carries.contentLength_eq.symm.trans others.contentLength_eq
  exact HttpApi.toString_inj.mp (Option.some.inj same)

theorem Carries.matches_iff (carries : world.Carries announced count) :
    (∀ delivered ∈ world.delivered, delivered.Matches) ↔ announced = count := by
  obtain ⟨response, shown, header⟩ := carries
  rw [shown]
  simp only [Option.mem_some_iff, forall_eq', Delivered.Matches, Delivered.contentLength, header,
    Option.some.injEq]
  exact HttpApi.toString_inj

end World

namespace HttpApi

variable {σ : Type} {system : System σ} {world after : World σ}

section Branches

variable {fd : Int} {response : HttpResponse} {fuel : Nat} {result : Int}

theorem carries_respond (silent : world.delivered = none)
    (unannounced : KeyedList.get? response.headers (bytes "Content-Length") = none) :
    (respond system world fd response).2.Carries response.body.length response.body.length :=
  ⟨_, World.delivered_respond system silent fd response,
    contentLength_withContentLength unannounced⟩

theorem carries_respondCachedFile {file : CachedFile} (silent : world.delivered = none)
    (fresh : Fresh response)
    (runs : respondCachedFile system world fd response file fuel = some (result, after))
    (sent : after.AllSent) : after.Carries file.dataLength file.dataLength := by
  have length : (file.content system.heap).length = file.dataLength := by
    simp [CachedFile.content]
  have begun := World.delivered_respond system silent fd
    (response.setHeader (bytes "Content-Length") (toString file.dataLength))
  rw [withContentLength_setHeader] at begun
  unfold respondCachedFile at runs
  dsimp only at runs
  obtain ⟨⟨complete, last⟩, sends, equal⟩ := Option.map_eq_some_iff.mp runs
  cases equal
  refine ⟨response.setHeader (bytes "Content-Length") (toString file.dataLength), ?_,
    KeyedList.get?_set_self _ _ _⟩
  have body : (response.setHeader (bytes "Content-Length") (toString file.dataLength)).body = [] :=
    fresh.empty
  rw [delivered_sendChunks (Nat.zero_le _) (Nat.zero_mod _) sends sent begun]
  dsimp only
  rw [body, length, List.length_nil, Nat.zero_add, Nat.sub_zero]

/-- `respond_view` announces an empty body and sends the file. -/
theorem carries_respondView {view : View} (silent : world.delivered = none) (fresh : Fresh response)
    (runs : respondView system world fd view response fuel = some (result, after))
    (sent : after.AllSent) :
    ∃ count, after.Carries 0 count ∧
      (count = 0 ↔ ¬ FirstChunk system
        ((respond system world fd response).2.openFile system view.route).1
        ((respond system world fd response).2.openFile system view.route).2) := by
  have announced := contentLength_withContentLength fresh.unannounced
  have begun := World.delivered_respond system silent fd response
  rw [fresh.empty, List.length_nil] at announced begun
  unfold respondView at runs
  dsimp only at runs
  split_ifs at runs with failed refused
  · cases runs
    exact absurd failed (World.respond_succeeds sent)
  · cases runs
    refine ⟨0, ⟨_, (World.delivered_openFile system _ _).trans begun, announced⟩,
      iff_of_true rfl ?_⟩
    exact fun first => absurd first.1 (Int.not_lt.mpr (Int.le_of_lt refused))
  · obtain ⟨⟨complete, last⟩, sends, equal⟩ := Option.map_eq_some_iff.mp runs
    have opened := (World.delivered_openFile system (respond system world fd response).2
      view.route).trans begun
    have ends : (after = last ∨
        after = (last.close system ((respond system world fd response).2.openFile system
          view.route).1).2) ∧ last.AllSent := by
      dsimp only at equal
      split_ifs at equal
      · cases equal
        exact ⟨.inl rfl, sent⟩
      · cases equal
        exact ⟨.inr rfl, fun event member => sent event (List.mem_append_left _ member)⟩
      · cases equal
        exact ⟨.inr rfl, fun event member => sent event (List.mem_append_left _ member)⟩
    obtain ⟨count, shown, first⟩ := delivered_sendFile sends ends.2 opened
    refine ⟨count, ⟨withContentLength response, ?_, announced⟩, first⟩
    rw [Nat.zero_add] at shown
    rcases ends.1 with rfl | rfl
    · exact shown
    · exact (World.delivered_close system last _).trans shown

/-- `respond_parameterized_view` sends the page that it renders, or nothing. -/
theorem carries_respondParameterizedView {view : View} (silent : world.delivered = none)
    (fresh : Fresh response)
    (runs : respondParameterizedView system world fd view response fuel = some (result, after)) :
    after.delivered = none ∨ ∃ buffer page,
      ((world.openFile system view.route).2.read system
        (world.openFile system view.route).1).1 = some buffer ∧
      (buffer.length : Int) = view.size ∧ Converges (templatize view.parameters buffer) page ∧
      after.Carries page.length page.length := by
  have opened := (World.delivered_openFile system world view.route).trans silent
  unfold respondParameterizedView at runs
  dsimp only at runs
  split_ifs at runs with refused
  · cases runs
    exact .inl opened
  · have read := (World.delivered_read system (world.openFile system view.route).2
      (world.openFile system view.route).1).trans opened
    rcases answered : (world.openFile system view.route).2.read system
      (world.openFile system view.route).1 with ⟨answer, next⟩
    rw [answered] at runs read
    cases answer with
    | none =>
        cases runs
        exact .inl read
    | some buffer =>
        have closed := (World.delivered_close system next
          (world.openFile system view.route).1).trans read
        dsimp only at runs
        split_ifs at runs with failed partly
        · cases runs
          exact .inl closed
        · cases runs
          exact .inl closed
        · obtain ⟨page, rendered, equal⟩ := Option.map_eq_some_iff.mp runs
          cases equal
          have carries := @carries_respond σ system _ fd { response with body := page } closed
            fresh.unannounced
          exact .inr ⟨buffer, page, rfl, not_not.mp partly, ⟨fuel, rendered⟩, carries⟩

end Branches

section Serving

/-- The request fills a cache entry. -/
structure Fills (api : HttpApi σ) (path : Bytes) (stat : Stat) : Prop where
  absent : KeyedList.get? (dropModified api path stat).fileCache path = none
  room : api.fileCacheRemainingBytes > stat.size
  free : api.fileCacheMutex = false

/-- The file is served without the cache. -/
structure Bypasses (api : HttpApi σ) (path : Bytes) (stat : Stat) : Prop where
  absent : KeyedList.get? (dropModified api path stat).fileCache path = none
  full : ¬ (api.fileCacheRemainingBytes > stat.size ∧ api.fileCacheMutex = false)

/-- The cache entry that is served, which the request may have filled itself. -/
inductive ServesEntry (system : System σ) (api : HttpApi σ) (found : World σ) (path : Bytes)
    (stat : Stat) (file : CachedFile) : Prop
  | cached (entry : KeyedList.get? (dropModified api path stat).fileCache path = some file)
  | filled {fuel : Nat} {filled : HttpApi σ} {after : World σ} (fills : Fills api path stat)
      (runs : cacheFile system (dropModified api path stat) found path stat fuel =
        some (true, filled, after))
      (entry : KeyedList.get? filled.fileCache path = some file)

/-- A page of at most one packet is rendered. -/
def Small (size : Nat) (path : Bytes) : Prop :=
  size < bufferLimit ∧ isHtml path

instance (size : Nat) (path : Bytes) : Decidable (Small size path) :=
  inferInstanceAs (Decidable (_ ∧ _))

/-- The template that is rendered: a cache entry, or what is read. -/
inductive RendersContent (system : System σ) (api : HttpApi σ) (found : World σ) (route : Bytes)
    (path : Bytes) (stat : Stat) (content : Bytes) : Prop
  | entry {file : CachedFile} (serves : ServesEntry system api found path stat file)
      (small : Small file.dataLength path) (equal : content = file.content system.heap)
  | read (bypasses : Bypasses api path stat) (small : Small stat.size path)
      (reads : ((found.openFile system route).2.read system
        (found.openFile system route).1).1 = some content)
      (whole : content.length = stat.size)

/-- `respond_view` announces an empty body, and the file is not empty. -/
structure Streams (system : System σ) (api : HttpApi σ) (found : World σ) (fd : Int)
    (route : Bytes) (response : HttpResponse) (path : Bytes) (stat : Stat) : Prop where
  bypasses : Bypasses api path stat
  large : ¬ Small stat.size path
  reads : FirstChunk system ((respond system found fd response).2.openFile system route).1
    ((respond system found fd response).2.openFile system route).2

/-- The ways of answering a request for a file, and what is announced and sent in each. -/
inductive Answered (system : System σ) (api : HttpApi σ) (found : World σ) (fd : Int) (view : View)
    (response : HttpResponse) (path : Bytes) (stat : Stat) (after : World σ) : Prop
  | nothing (silent : after.delivered = none)
      (serves : ¬ (Bypasses api path stat ∧ ¬ Small stat.size path))
  | page {content page : Bytes}
      (template : RendersContent system api found view.route path stat content)
      (renders : Converges (templatize view.parameters content) page)
      (carries : after.Carries page.length page.length)
  | entry {file : CachedFile} (serves : ServesEntry system api found path stat file)
      (large : ¬ Small file.dataLength path) (carries : after.Carries file.dataLength file.dataLength)
  | streamed {count : Nat} (bypasses : Bypasses api path stat) (large : ¬ Small stat.size path)
      (carries : after.Carries 0 count)
      (first : count = 0 ↔ ¬ Streams system api found fd view.route response path stat)

section Answers

variable {api cached : HttpApi σ} {found : World σ} {fd : Int} {view : View}
  {response : HttpResponse} {path : Bytes} {stat : Stat} {fuel : Nat} {result : Int}

theorem serve_entry_answered {file : CachedFile}
    (entry : KeyedList.get? cached.fileCache path = some file)
    (serves : ServesEntry system api found path stat file) (silent : world.delivered = none)
    (fresh : Fresh response)
    (runs : serve system cached world fd view response path stat fuel = some (result, after))
    (sent : after.AllSent) : Answered system api found fd view response path stat after := by
  unfold serve at runs
  rw [entry] at runs
  dsimp only at runs
  split_ifs at runs with small
  · obtain ⟨page, rendered, equal⟩ := Option.map_eq_some_iff.mp runs
    cases equal
    have carries := @carries_respond σ system world fd { response with body := page } silent
      fresh.unannounced
    exact .page (.entry serves small rfl) ⟨fuel, rendered⟩ carries
  · exact .entry serves small (carries_respondCachedFile silent fresh runs sent)

theorem serve_disk_answered (bypasses : Bypasses api path stat) (silent : found.delivered = none)
    (fresh : Fresh response)
    (runs : serve system (dropModified api path stat) found fd view response path stat fuel =
      some (result, after))
    (sent : after.AllSent) : Answered system api found fd view response path stat after := by
  unfold serve at runs
  rw [bypasses.absent] at runs
  dsimp only at runs
  split_ifs at runs with smallSize
  · have small : Small stat.size path := ⟨by exact_mod_cast smallSize.1, smallSize.2⟩
    rcases carries_respondParameterizedView silent fresh runs with
      nothing | ⟨buffer, page, reads, whole, renders, carries⟩
    · exact .nothing nothing fun serves => serves.2 small
    · exact .page (.read bypasses small reads (Int.natCast_inj.mp whole)) renders carries
  · have large : ¬ Small stat.size path :=
      fun small => smallSize ⟨by exact_mod_cast small.1, small.2⟩
    obtain ⟨count, carries, first⟩ := carries_respondView silent fresh runs sent
    refine .streamed bypasses large carries (first.trans (not_congr ?_))
    exact ⟨fun reads => ⟨bypasses, large, reads⟩, fun streams => streams.reads⟩

/-- A request for a file that is found is answered in one of these ways. -/
theorem respondHttp_answered {answer : Answer σ} (fetches : view.method ≠ bytes "HEAD")
    (resolved : resolve system world (api.publicDirectory ++ cleanRoute view.route) =
      (some (path, stat), found))
    (silent : found.delivered = none) (fresh : Fresh response)
    (runs : respondHttp system api world fd view response fuel = some answer)
    (sent : answer.world.AllSent) :
    Answered system api found fd view
      (response.setHeader (bytes "Content-Type") (contentType path)) path stat answer.world := by
  have freshTyped := fresh.setHeader (by decide : bytes "Content-Type" ≠ bytes "Content-Length")
    (contentType path)
  unfold respondHttp at runs
  rw [resolved] at runs
  dsimp only at runs
  rw [if_neg fetches, fileCacheRemainingBytes_dropModified, fileCacheMutex_dropModified] at runs
  cases entry : KeyedList.get? (dropModified api path stat).fileCache path with
  | some file =>
      rw [KeyedList.contains, entry, if_neg fun fills => Bool.false_ne_true fills.1] at runs
      obtain ⟨⟨result, after⟩, serves, rfl⟩ := Option.map_eq_some_iff.mp runs
      exact serve_entry_answered entry (.cached entry) silent freshTyped serves sent
  | none =>
      rw [KeyedList.contains, entry] at runs
      split_ifs at runs with open'
      · have fills : Fills api path stat := ⟨entry, open'.2.1, by simpa using open'.2.2⟩
        obtain ⟨⟨filled, cached, after⟩, caches, rest⟩ := Option.bind_eq_some_iff.mp runs
        have stillSilent := (delivered_cacheFile caches).trans silent
        cases filled with
        | false =>
            cases rest
            exact .nothing stillSilent fun serves =>
              serves.1.full ⟨fills.room, fills.free⟩
        | true =>
            obtain ⟨⟨result, last⟩, serves, rfl⟩ := Option.map_eq_some_iff.mp rest
            obtain ⟨file, -, rfl⟩ := cacheFile_stores caches
            have stored : KeyedList.get? (store (dropModified api path stat) path file).fileCache
                path = some file := KeyedList.get?_set_self _ _ _
            exact serve_entry_answered stored (.filled fills caches stored) stillSilent freshTyped
              serves sent
      · have bypasses : Bypasses api path stat := by
          refine ⟨entry, fun fills => open' ⟨rfl, fills.1, ?_⟩⟩
          rw [fills.2]
          rfl
        obtain ⟨⟨result, last⟩, serves, rfl⟩ := Option.map_eq_some_iff.mp runs
        exact serve_disk_answered bypasses silent freshTyped serves sent

end Answers

section Conditions

variable {api : HttpApi σ} {found : World σ} {fd : Int} {route : Bytes} {response : HttpResponse}
  {path : Bytes} {stat : Stat}

/-- The clean-up leaves a page of the size. -/
def CleansTo (content : Bytes) (size : Nat) : Prop :=
  (content.length = size ∧ ¬ Delimited content) ∨
    (size < content.length ∧
      ∃ page, Relation.ReflTransGen Round content page ∧ ¬ Delimited page ∧ page.length = size)

/-- What a GET without parameters announces is the size of the file. -/
structure AnnouncesSize (system : System σ) (api : HttpApi σ) (found : World σ) (route : Bytes)
    (path : Bytes) (stat : Stat) : Prop where
  pages : ∀ content, RendersContent system api found route path stat content →
    CleansTo content stat.size
  entries : ∀ file, ServesEntry system api found path stat file → ¬ Small file.dataLength path →
    file.dataLength = stat.size
  streams : Bypasses api path stat → ¬ Small stat.size path → stat.size = 0

theorem ServesEntry.not_bypasses {file : CachedFile}
    (serves : ServesEntry system api found path stat file) : ¬ Bypasses api path stat := by
  intro bypasses
  cases serves with
  | cached entry =>
      rw [bypasses.absent] at entry
      cases entry
  | filled fills runs entry => exact bypasses.full ⟨fills.room, fills.free⟩

theorem ServesEntry.unique {file other : CachedFile}
    (first : ServesEntry system api found path stat file)
    (second : ServesEntry system api found path stat other) : file = other := by
  cases first with
  | cached entry =>
      cases second with
      | cached again => exact Option.some.inj (entry.symm.trans again)
      | filled fills =>
          rw [fills.absent] at entry
          cases entry
  | filled fills runs entry =>
      cases second with
      | cached again =>
          rw [fills.absent] at again
          cases again
      | filled fillsAgain runsAgain again =>
          have same := (cacheFile_stable system _ found path stat).unique ⟨_, runs⟩ ⟨_, runsAgain⟩
          cases same
          exact Option.some.inj (entry.symm.trans again)

theorem RendersContent.unique {content other : Bytes}
    (first : RendersContent system api found route path stat content)
    (second : RendersContent system api found route path stat other) : content = other := by
  cases first with
  | entry serves small equal =>
      cases second with
      | entry servesAgain smallAgain again => rw [equal, again, serves.unique servesAgain]
      | read bypasses => exact absurd bypasses serves.not_bypasses
  | read bypasses small reads whole =>
      cases second with
      | entry serves => exact absurd bypasses serves.not_bypasses
      | read bypassesAgain smallAgain again => exact Option.some.inj (reads.symm.trans again)

theorem RendersContent.short {content : Bytes}
    (renders : RendersContent system api found route path stat content) :
    content.length < 2 ^ 63 := by
  have limit : bufferLimit < 2 ^ 63 := by decide
  cases renders with
  | @entry file serves small equal =>
      have length : (file.content system.heap).length = file.dataLength := by
        simp [CachedFile.content]
      rw [equal, length]
      exact small.1.trans limit
  | read bypasses small reads whole =>
      rw [whole]
      exact small.1.trans limit

/-- A page is rendered, or the file is streamed. -/
theorem RendersContent.not_large {content : Bytes}
    (renders : RendersContent system api found route path stat content) :
    ¬ (Bypasses api path stat ∧ ¬ Small stat.size path) := by
  rintro ⟨bypasses, large⟩
  cases renders with
  | entry serves => exact serves.not_bypasses bypasses
  | read bypassesAgain small => exact large small

theorem eq_or_length_lt_of_rounds {content page : Bytes}
    (rounds : Relation.ReflTransGen Round content page) :
    page = content ∨ page.length < content.length := by
  induction rounds with
  | refl => exact .inl rfl
  | tail earlier last ih =>
      have shorter := last.shorter
      rcases ih with rfl | less
      · exact .inr shorter
      · exact .inr (shorter.trans less)

theorem length_eq_iff_cleansTo {content page : Bytes} {size : Nat}
    (short : content.length < 2 ^ 63)
    (cleans : Converges (fun fuel => cleanUp fuel content) page) :
    page.length = size ↔ CleansTo content size := by
  obtain ⟨rounds, clear⟩ := (converges_cleanUp_iff short).mp cleans
  constructor
  · rintro rfl
    rcases eq_or_length_lt_of_rounds rounds with rfl | less
    · exact .inl ⟨rfl, clear⟩
    · exact .inr ⟨less, page, rounds, clear, rfl⟩
  · have unique {other : Bytes} (roundsTo : Relation.ReflTransGen Round content other)
        (clearOther : ¬ Delimited other) : page = other :=
      (cleanUp_stable content).unique cleans
        ((converges_cleanUp_iff short).mpr ⟨roundsTo, clearOther⟩)
    rintro (⟨same, clearContent⟩ | ⟨-, other, roundsTo, clearOther, size⟩)
    · rw [unique .refl clearContent, same]
    · rw [unique roundsTo clearOther, size]

theorem RendersContent.small_entry {content : Bytes} {file : CachedFile}
    (renders : RendersContent system api found route path stat content)
    (serves : ServesEntry system api found path stat file) : Small file.dataLength path := by
  cases renders with
  | entry servesAgain small => exact serves.unique servesAgain ▸ small
  | read bypasses => exact absurd bypasses serves.not_bypasses

variable {view : View}

/-- The number announced compared with the size of the file. -/
theorem Answered.announced_iff (plain : view.parameters = [])
    (answered : Answered system api found fd view response path stat after)
    {announced count : Nat} (carries : after.Carries announced count) :
    announced = stat.size ↔ AnnouncesSize system api found view.route path stat := by
  cases answered with
  | nothing silent =>
      obtain ⟨first, shown, -⟩ := carries
      rw [silent] at shown
      cases shown
  | page template renders carriesPage =>
      rw [plain, converges_templatize_iff] at renders
      rw [carries.unique carriesPage, length_eq_iff_cleansTo template.short renders]
      constructor
      · intro cleans
        exact ⟨fun content other => other.unique template ▸ cleans,
          fun file serves large => absurd (template.small_entry serves) large,
          fun bypasses large => absurd ⟨bypasses, large⟩ template.not_large⟩
      · exact fun announces => announces.pages _ template
  | entry serves large carriesEntry =>
      rw [carries.unique carriesEntry]
      constructor
      · intro same
        exact ⟨fun content renders => absurd (renders.small_entry serves) large,
          fun other servesOther _ => servesOther.unique serves ▸ same,
          fun bypasses => absurd bypasses serves.not_bypasses⟩
      · exact fun announces => announces.entries _ serves large
  | streamed bypasses large carriesNothing =>
      rw [carries.unique carriesNothing]
      constructor
      · intro empty
        exact ⟨fun content renders => absurd ⟨bypasses, large⟩ renders.not_large,
          fun file serves => absurd bypasses serves.not_bypasses, fun _ _ => empty.symm⟩
      · exact fun announces => (announces.streams bypasses large).symm

theorem Answered.exists_carries
    (answered : Answered system api found fd view response path stat after)
    (answers : after.delivered ≠ none) :
    ∃ announced count, after.Carries announced count := by
  cases answered with
  | nothing silent => exact absurd silent answers
  | page _ _ carries => exact ⟨_, _, carries⟩
  | entry _ _ carries => exact ⟨_, _, carries⟩
  | streamed _ _ carries => exact ⟨_, _, carries⟩

/-- The number announced compared with the number of bytes that follow. -/
theorem Answered.matches_iff
    (answered : Answered system api found fd view response path stat after) :
    (∀ delivered ∈ after.delivered, delivered.Matches) ↔
      ¬ Streams system api found fd view.route response path stat := by
  cases answered with
  | nothing silent serves =>
      apply iff_of_true
      · rw [silent]
        exact fun delivered member => absurd member (Option.not_mem_none delivered)
      · exact fun streams => serves ⟨streams.bypasses, streams.large⟩
  | page template renders carries =>
      rw [carries.matches_iff]
      exact iff_of_true rfl fun streams => template.not_large ⟨streams.bypasses, streams.large⟩
  | entry serves large carries =>
      rw [carries.matches_iff]
      exact iff_of_true rfl fun streams => serves.not_bypasses streams.bypasses
  | streamed bypasses large carries first =>
      rw [carries.matches_iff, ← first]
      exact eq_comm

end Conditions

section Callers

variable {services : Services} {api : HttpApi σ} {state : σ} {id key : Bytes}
  {kind : RequestResult} {request : JsonObject} {response : HttpResponse} {fuel : Nat}

/-- When `respond_http` is called it gets this response. -/
def PassesOn (response : HttpResponse) (ending : Ending) : Prop :=
  ∀ view other, ending = .reply (.respondHttp view other) → other = response

theorem passesOn_refuse (view : View) (message : Bytes) :
    PassesOn response (.reply (refuse kind view response message)) := by
  intro other passed equal
  unfold refuse at equal
  split_ifs at equal
  · cases equal
    rfl
  · cases equal

theorem passesOn_gates {view : View} {route : Route σ} {after : HttpApi σ} {ending : Ending}
    (refused : gates services api id kind request view response key route =
      (after, .error ending)) : PassesOn response ending := by
  unfold gates at refused
  split at refused
  · cases refused
    exact fun _ _ equal => by cases equal
  · dsimp only at refused
    split_ifs at refused
    · cases refused
      exact passesOn_refuse _ _
    · split at refused
      · cases refused
        exact passesOn_refuse _ _
      · unfold checkHuman at refused
        split_ifs at refused
        · cases refused
          exact passesOn_refuse _ _
        · cases refused
          exact passesOn_refuse _ _
        · cases refused
        · cases refused

theorem passesOn_respondHttp (view : View) :
    PassesOn response (.reply (.respondHttp view response)) := by
  intro other passed equal
  cases equal
  rfl

theorem passesOn_respond (answer : HttpResponse) :
    PassesOn response (.reply (.respond answer)) := by
  intro view passed equal
  cases equal

theorem passesOn_invoke {view : View} {route : Route σ} {dispatched : Dispatched σ}
    (runs : invoke services api state id key request response kind view route fuel =
      some dispatched) : PassesOn response dispatched.ending := by
  cases kind with
  | http =>
      cases runs
      exact passesOn_respondHttp view
  | httpForm =>
      cases runs
      unfold invokeForm
      split
      · exact passesOn_respond _
      · exact passesOn_respondHttp _
  | httpApi =>
      change invokeApi services api state id key request response view route fuel = _ at runs
      unfold invokeApi at runs
      split at runs
      · cases runs
        exact passesOn_respond _
      · unfold invokeToken at runs
        split_ifs at runs
        · cases runs
          exact passesOn_respond _
        · split at runs
          · cases runs
            exact passesOn_respond _
          · obtain ⟨parsed, -, rfl⟩ := Option.map_eq_some_iff.mp runs
            exact passesOn_respond _
      · cases runs
        exact passesOn_respondHttp view
  | api =>
      cases runs
      exact fun _ _ equal => by cases equal

theorem passesOn_showCaptcha (captcha : Bytes) :
    PassesOn response (showCaptcha services response captcha) := by
  unfold showCaptcha
  dsimp only
  split_ifs
  · exact passesOn_respond _
  · split
    · exact fun _ _ equal => by cases equal
    · exact passesOn_respond _

/-- Every caller of `respond_http` passes a response that announces nothing. -/
theorem fresh_of_dispatch {dispatched : Dispatched σ} {view : View}
    (runs : dispatch services api state kind request fuel = some dispatched)
    (passed : dispatched.ending = .reply (.respondHttp view response)) : Fresh response := by
  suffices ∃ id, response = HttpResponse.default.setHeader sessionKey id by
    obtain ⟨id, rfl⟩ := this
    have default : Fresh HttpResponse.default := ⟨rfl, rfl⟩
    exact default.setHeader (by decide) id
  unfold dispatch dispatchIn at runs
  dsimp only at runs
  split_ifs at runs
  · cases runs
    exact ⟨_, passesOn_respondHttp _ _ _ passed⟩
  · cases runs
    exact ⟨_, passesOn_showCaptcha _ _ _ passed⟩
  · split at runs
    · cases runs
      exact ⟨_, passesOn_refuse _ _ _ _ passed⟩
    · split at runs
      · rename_i refused
        cases runs
        exact ⟨_, passesOn_gates refused _ _ passed⟩
      · exact ⟨_, passesOn_invoke runs _ _ passed⟩

end Callers

section Requests

variable {api : HttpApi σ} {state : σ} {fd : Int} {view : View} {response : HttpResponse}
  {fuel : Nat} {answer : Answer σ}

/-- The response to a HEAD request announces the size of the file. -/
theorem contentLength_head {found : World σ} {path : Bytes} {stat : Stat}
    (head : view.method = bytes "HEAD")
    (resolved : resolve system world (api.publicDirectory ++ cleanRoute view.route) =
      (some (path, stat), found))
    (silent : found.delivered = none)
    (runs : respondHttp system api world fd view response fuel = some answer) :
    answer.world.contentLength = some (toString stat.size) := by
  unfold respondHttp at runs
  rw [resolved] at runs
  dsimp only at runs
  rw [if_pos head] at runs
  cases runs
  have shown := World.delivered_respond system silent fd
    ((response.setHeader (bytes "Content-Type") (contentType path)).setHeader
      (bytes "Content-Length") (toString stat.size))
  rw [withContentLength_setHeader] at shown
  rw [World.contentLength, shown]
  exact KeyedList.get?_set_self _ _ _

/-- The response to a request for nothing announces its own body. -/
theorem carries_respondHttp_notFound {found : World σ}
    (resolved : resolve system world (api.publicDirectory ++ cleanRoute view.route) = (none, found))
    (silent : found.delivered = none)
    (runs : respondHttp system api world fd view response fuel = some answer) :
    answer.world = (respond404 system found fd).2 ∧ ∃ size, answer.world.Carries size size := by
  unfold respondHttp at runs
  rw [resolved] at runs
  cases runs
  exact ⟨rfl, _, carries_respond silent (by decide)⟩

/-- Behind every header block come as many bytes as it announces, unless
`respond_view` serves a file that is not empty.  A HEAD request announces what
a GET would exactly when a GET would announce the size of the file. -/
theorem contentLength_correct_iff (fetches : view.method ≠ bytes "HEAD") (fresh : Fresh response)
    (runs : respondHttp system api ⟨state, []⟩ fd view response fuel = some answer)
    (sent : answer.world.AllSent) :
    ((∀ delivered ∈ answer.world.delivered, delivered.Matches) ↔
      ∀ path stat found,
        resolve system ⟨state, []⟩ (api.publicDirectory ++ cleanRoute view.route) =
          (some (path, stat), found) →
        ¬ Streams system api found fd view.route
          (response.setHeader (bytes "Content-Type") (contentType path)) path stat) ∧
    ∀ (head : View) (headFuel : Nat) (headAnswer : Answer σ),
      head.route = view.route → head.method = bytes "HEAD" → view.parameters = [] →
      answer.world.delivered ≠ none →
      respondHttp system api ⟨state, []⟩ fd head response headFuel = some headAnswer →
      (headAnswer.world.contentLength = answer.world.contentLength ↔
        ∀ path stat found,
          resolve system ⟨state, []⟩ (api.publicDirectory ++ cleanRoute view.route) =
            (some (path, stat), found) →
          AnnouncesSize system api found view.route path stat) := by
  have silent : (resolve system ⟨state, []⟩
      (api.publicDirectory ++ cleanRoute view.route)).2.delivered = none :=
    delivered_resolve _ _
  rcases resolved : resolve system ⟨state, []⟩ (api.publicDirectory ++ cleanRoute view.route) with
    ⟨target, found⟩
  rw [resolved] at silent
  have silentStart : found.delivered = none := silent
  cases target with
  | none =>
      obtain ⟨ends, size, carries⟩ := carries_respondHttp_notFound resolved silentStart runs
      refine ⟨iff_of_true (carries.matches_iff.mpr rfl) (by simp), ?_⟩
      intro head headFuel headAnswer route isHead plain answers headRuns
      rw [← route] at resolved
      obtain ⟨headEnds, -⟩ := carries_respondHttp_notFound resolved silentStart headRuns
      exact iff_of_true (by rw [ends, headEnds]) (by simp)
  | some target =>
      obtain ⟨path, stat⟩ := target
      have answered := respondHttp_answered fetches resolved silentStart fresh runs sent
      refine ⟨answered.matches_iff.trans ?_, ?_⟩
      · simp
      · intro head headFuel headAnswer route isHead plain answers headRuns
        rw [← route] at resolved
        obtain ⟨announced, count, carries⟩ := answered.exists_carries answers
        rw [contentLength_head isHead resolved silentStart headRuns, carries.contentLength_eq,
          Option.some.injEq, toString_inj, eq_comm, answered.announced_iff plain carries]
        simp

/-- What happens when a cache without room leaves a file of two bytes to `respond_view`. -/
def streamedHi : List Event :=
  [.lstat (bytes "public/a.txt"),
    .responded ⟨bytes "HTTP/1.1", bytes "200 Ok",
      [(bytes "Content-Type", bytes "text/plain"), (bytes "Content-Length", bytes "0")], []⟩ false,
    .opened (bytes "/a.txt") 3, .read 3 (some (bytes "hi")), .sent (bytes "hi") false, .closed 3]

theorem respondHttp_streamedHi :
    respondHttp (onlyFile (bytes "hi")) ⟨bytes "public", [], 0, false, [], []⟩ ⟨[], []⟩ 5
        ⟨bytes "/a.txt", bytes "GET", [], 0⟩ .default 1 =
      some ⟨66, ⟨bytes "public", [], 0, false, [], []⟩, ⟨[], streamedHi⟩⟩ :=
  rfl

theorem allSent_streamedHi : World.AllSent (⟨[], streamedHi⟩ : World Bytes) := by
  simp [World.AllSent, streamedHi, Event.Unsent]

theorem contentLength_correct_iff_onlyFile :
    (∀ delivered ∈ World.delivered (⟨[], streamedHi⟩ : World Bytes), delivered.Matches) ↔
      ∀ path stat found,
        resolve (onlyFile (bytes "hi")) ⟨[], []⟩ (bytes "public" ++ cleanRoute (bytes "/a.txt")) =
          (some (path, stat), found) →
        ¬ Streams (onlyFile (bytes "hi")) ⟨bytes "public", [], 0, false, [], []⟩ found 5
          (bytes "/a.txt") (HttpResponse.default.setHeader (bytes "Content-Type") (contentType path))
          path stat :=
  (contentLength_correct_iff (by decide) ⟨rfl, rfl⟩ respondHttp_streamedHi allSent_streamedHi).1

/-- A file of two bytes follows a header that announces none. -/
theorem not_contentLength_correct :
    ¬ ∀ (system : System Bytes) (api : HttpApi Bytes) (state : Bytes) (fd : Int) (view : View)
      (response : HttpResponse) (fuel : Nat) (answer : Answer Bytes),
      view.method ≠ bytes "HEAD" → Fresh response →
      respondHttp system api ⟨state, []⟩ fd view response fuel = some answer →
      answer.world.AllSent → ∀ delivered ∈ answer.world.delivered, delivered.Matches := by
  intro correct
  have matchesHi := correct _ _ _ _ _ _ _ _ (by decide) ⟨rfl, rfl⟩ respondHttp_streamedHi
    allSent_streamedHi _ rfl
  revert matchesHi
  decide

end Requests

end Serving

end HttpApi

end Libjaypea
