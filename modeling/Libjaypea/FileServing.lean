import Libjaypea.HttpApi

/-!
# Serving a file, cached or not

The functions under `respond_http` give the same answer for any larger amount
of fuel.
-/

namespace Libjaypea

open Fuelled

namespace HttpApi

variable {σ : Type} (system : System σ)

section Loops

variable (fd fileFd : Int) (fuel offset bufferSize : Nat) (world : World σ)

theorem sendChunks_succ (data : Bytes) :
    sendChunks system fd data (fuel + 1) offset bufferSize world =
      if bufferSize = bufferLimit then
        let size := if offset + bufferSize > data.length then data.length % bufferLimit
          else bufferSize
        let sent := world.send system fd ((data.drop offset).take size)
        if sent.1 then some (false, sent.2)
        else sendChunks system fd data fuel (offset + size) size sent.2
      else some (true, world) :=
  rfl

theorem cleanUp_succ (body : Bytes) :
    cleanUp (fuel + 1) body =
      match Util.find (bytes "\x7b\x7b\x7b") body, Util.find (bytes "\x7d\x7d\x7d") body with
      | some parameterStart, some parameterEnd =>
          (Util.replaceAll body ((body.drop parameterStart).take
            ((parameterEnd + 2 ^ 64 - parameterStart + 3) % 2 ^ 64)) [] fuel).bind
              fun body => cleanUp fuel body
      | _, _ => some body := by
  conv => lhs; unfold cleanUp
  cases Util.find (bytes "\x7b\x7b\x7b") body <;>
    cases Util.find (bytes "\x7d\x7d\x7d") body <;> rfl

theorem sendFile_succ :
    sendFile system fd fileFd (fuel + 1) world =
      if fileFd > 0 then
        match world.read system fileFd with
        | (none, world) => some (false, world)
        | (some buffer, world) =>
            let sent := world.send system fd buffer
            if sent.1 then some (false, sent.2)
            else if buffer.length < bufferLimit then some (true, sent.2)
            else sendFile system fd fileFd fuel sent.2
      else some (true, world) :=
  rfl

theorem fill_succ (cachedFile : CachedFile) :
    fill system fileFd (fuel + 1) offset cachedFile world =
      if fileFd > 0 then
        match world.read system fileFd with
        | (none, world) => some (false, cachedFile, world)
        | (some buffer, world) =>
            if buffer.length < bufferLimit then some (true, cachedFile.write offset buffer, world)
            else
              fill system fileFd fuel (offset + buffer.length) (cachedFile.write offset buffer) world
      else some (true, cachedFile, world) :=
  rfl

end Loops

section Rules

variable {system} {fd fileFd : Int} {fuel : Nat} {world after : World σ} {complete : Bool}
  {holds fails : World σ → Prop}

/-- What every read and every send keeps, the loop of `respond_view` keeps; it
ends where one of them fails. -/
theorem sendFile_rule
    (reads : ∀ world : World σ, holds world →
      match (world.read system fileFd).1 with
      | none => fails (world.read system fileFd).2
      | some _ => holds (world.read system fileFd).2)
    (sends : ∀ (world : World σ) (data : Bytes), holds world →
      if (world.send system fd data).1 then fails (world.send system fd data).2
      else holds (world.send system fd data).2)
    (begins : holds world)
    (runs : sendFile system fd fileFd fuel world = some (complete, after)) :
    if complete then holds after else fails after := by
  induction fuel generalizing world with
  | zero => cases runs
  | succ fuel ih =>
      rw [sendFile_succ] at runs
      split_ifs at runs
      · have read := reads world begins
        split at runs
        · rename_i next equal
          rw [equal] at read
          cases runs
          exact read
        · rename_i buffer next equal
          rw [equal] at read
          have sent := sends next buffer read
          dsimp only at runs
          split_ifs at runs with failed
          · rw [if_pos failed] at sent
            cases runs
            exact sent
          · rw [if_neg failed] at sent
            cases runs
            exact sent
          · rw [if_neg failed] at sent
            exact ih sent runs
      · cases runs
        exact begins

theorem sendFile_keeps
    (reads : ∀ world : World σ, holds world → holds (world.read system fileFd).2)
    (sends : ∀ (world : World σ) (data : Bytes), holds world → holds (world.send system fd data).2)
    (begins : holds world)
    (runs : sendFile system fd fileFd fuel world = some (complete, after)) : holds after := by
  have keeps : if complete then holds after else holds after := by
    refine sendFile_rule (fun next kept => ?_) (fun next data kept => ?_) begins runs
    · have read := reads next kept
      split <;> exact read
    · have sent := sends next data kept
      split_ifs <;> exact sent
  rwa [ite_self] at keeps

/-- What every read keeps, the loop that fills an entry keeps; it ends where one fails. -/
theorem fill_rule {offset : Nat} {file filled : CachedFile}
    (reads : ∀ world : World σ, holds world →
      match (world.read system fileFd).1 with
      | none => fails (world.read system fileFd).2
      | some _ => holds (world.read system fileFd).2)
    (begins : holds world)
    (runs : fill system fileFd fuel offset file world = some (complete, filled, after)) :
    if complete then holds after else fails after := by
  induction fuel generalizing offset file world with
  | zero => cases runs
  | succ fuel ih =>
      rw [fill_succ] at runs
      split_ifs at runs
      · have read := reads world begins
        split at runs
        · rename_i next equal
          rw [equal] at read
          cases runs
          exact read
        · rename_i buffer next equal
          rw [equal] at read
          split_ifs at runs
          · cases runs
            exact read
          · exact ih read runs
      · cases runs
        exact begins

theorem fill_keeps {offset : Nat} {file filled : CachedFile}
    (reads : ∀ world : World σ, holds world → holds (world.read system fileFd).2)
    (begins : holds world)
    (runs : fill system fileFd fuel offset file world = some (complete, filled, after)) :
    holds after := by
  have keeps : if complete then holds after else holds after := by
    refine fill_rule (fun next kept => ?_) begins runs
    have read := reads next kept
    split <;> exact read
  rwa [ite_self] at keeps

/-- What every send keeps, the loop over a cache entry keeps. -/
theorem sendChunks_keeps {data : Bytes} {offset bufferSize : Nat}
    (sends : ∀ (world : World σ) (data : Bytes), holds world → holds (world.send system fd data).2)
    (begins : holds world)
    (runs : sendChunks system fd data fuel offset bufferSize world = some (complete, after)) :
    holds after := by
  induction fuel generalizing offset bufferSize world with
  | zero => cases runs
  | succ fuel ih =>
      rw [sendChunks_succ] at runs
      dsimp only at runs
      generalize (if offset + bufferSize > data.length then data.length % bufferLimit
        else bufferSize) = size at runs
      split_ifs at runs
      · cases runs
        exact sends world _ begins
      · exact ih (sends world _ begins) runs
      · cases runs
        exact begins

end Rules

theorem sendChunks_stable (fd : Int) (data : Bytes) (offset bufferSize : Nat) (world : World σ) :
    Stable fun fuel => sendChunks system fd data fuel offset bufferSize world := by
  intro fuel
  induction fuel generalizing offset bufferSize world with
  | zero => intro answer equal; simp [sendChunks] at equal
  | succ fuel ih =>
      intro answer equal
      dsimp only at equal ih ⊢
      rw [sendChunks_succ] at equal ⊢
      dsimp only at equal ⊢
      split_ifs at equal ⊢
      all_goals first | exact equal | exact ih _ _ _ _ equal

theorem respondCachedFile_stable (world : World σ) (fd : Int) (response : HttpResponse)
    (cachedFile : CachedFile) :
    Stable (respondCachedFile system world fd response cachedFile) :=
  (sendChunks_stable system fd _ 0 bufferLimit _).map _

theorem substitute_stable (parameters : List (Bytes × Bytes)) (body : Bytes) :
    Stable (substitute parameters body) := by
  induction parameters generalizing body with
  | nil => exact stable_const _
  | cons parameter rest ih =>
      exact Stable.bind (Util.replaceAll_stable body _ parameter.2) ih

theorem cleanUp_stable (body : Bytes) : Stable fun fuel => cleanUp fuel body := by
  intro fuel
  induction fuel generalizing body with
  | zero => intro answer equal; simp [cleanUp] at equal
  | succ fuel ih =>
      intro answer equal
      dsimp only at equal ih ⊢
      rw [cleanUp_succ] at equal ⊢
      split at equal
      · obtain ⟨replaced, replacedEq, later⟩ := Option.bind_eq_some_iff.mp equal
        exact Option.bind_eq_some_iff.mpr
          ⟨replaced, Util.replaceAll_stable _ _ _ fuel replaced replacedEq, ih _ _ later⟩
      · exact equal

theorem templatize_stable (parameters : List (Bytes × Bytes)) (body : Bytes) :
    Stable (templatize parameters body) :=
  Stable.bind (substitute_stable parameters body) cleanUp_stable

theorem respondParameterizedView_stable (world : World σ) (fd : Int) (view : View)
    (response : HttpResponse) :
    Stable (respondParameterizedView system world fd view response) := by
  intro fuel answer equal
  simp only [respondParameterizedView] at equal ⊢
  split_ifs at equal ⊢
  · exact equal
  · split at equal
    · exact equal
    · split_ifs at equal ⊢
      · exact equal
      · exact equal
      · exact (templatize_stable view.parameters _).map _ fuel answer equal

theorem sendFile_stable (fd fileFd : Int) (world : World σ) :
    Stable fun fuel => sendFile system fd fileFd fuel world := by
  intro fuel
  induction fuel generalizing world with
  | zero => intro answer equal; simp [sendFile] at equal
  | succ fuel ih =>
      intro answer equal
      dsimp only at equal ih ⊢
      rw [sendFile_succ] at equal ⊢
      split_ifs at equal ⊢
      · split at equal
        · exact equal
        · dsimp only at equal ⊢
          split_ifs at equal ⊢
          all_goals first | exact equal | exact ih _ _ equal
      · exact equal

theorem respondView_stable (world : World σ) (fd : Int) (view : View) (response : HttpResponse) :
    Stable (respondView system world fd view response) := by
  intro fuel answer equal
  simp only [respondView] at equal ⊢
  split_ifs at equal ⊢
  · exact equal
  · exact equal
  · exact (sendFile_stable system fd _ _).map _ fuel answer equal

theorem fill_stable (fileFd : Int) (offset : Nat) (cachedFile : CachedFile) (world : World σ) :
    Stable fun fuel => fill system fileFd fuel offset cachedFile world := by
  intro fuel
  induction fuel generalizing offset cachedFile world with
  | zero => intro answer equal; simp [fill] at equal
  | succ fuel ih =>
      intro answer equal
      dsimp only at equal ih ⊢
      rw [fill_succ] at equal ⊢
      split_ifs at equal ⊢
      · split at equal
        · exact equal
        · split_ifs at equal ⊢
          · exact equal
          · exact ih _ _ _ _ equal
      · exact equal

theorem cacheFile_stable (api : HttpApi σ) (world : World σ) (path : Bytes) (stat : Stat) :
    Stable (cacheFile system api world path stat) := by
  intro fuel answer equal
  simp only [cacheFile] at equal ⊢
  split_ifs at equal ⊢
  · exact equal
  · exact (fill_stable system _ 0 _ _).map _ fuel answer equal

theorem serve_stable (api : HttpApi σ) (world : World σ) (fd : Int) (view : View)
    (response : HttpResponse) (path : Bytes) (stat : Stat) :
    Stable (serve system api world fd view response path stat) := by
  intro fuel answer equal
  simp only [serve] at equal ⊢
  split at equal
  · split_ifs at equal ⊢
    · exact (templatize_stable view.parameters _).map _ fuel answer equal
    · exact respondCachedFile_stable system world fd response _ fuel answer equal
  · split_ifs at equal ⊢
    · exact respondParameterizedView_stable system world fd _ response fuel answer equal
    · exact respondView_stable system world fd _ response fuel answer equal

theorem respondHttp_stable (api : HttpApi σ) (world : World σ) (fd : Int) (view : View)
    (response : HttpResponse) : Stable (respondHttp system api world fd view response) := by
  intro fuel answer equal
  simp only [respondHttp] at equal ⊢
  split at equal
  · exact equal
  · split_ifs at equal ⊢
    · exact equal
    · obtain ⟨cached, cachedEq, later⟩ := Option.bind_eq_some_iff.mp equal
      refine Option.bind_eq_some_iff.mpr
        ⟨cached, cacheFile_stable system _ _ _ _ fuel cached cachedEq, ?_⟩
      split_ifs at later ⊢
      · exact later
      · exact (serve_stable system _ _ fd view _ _ _).map _ fuel answer later
    · exact (serve_stable system _ _ fd view _ _ _).map _ fuel answer equal

/-- Only the file cache differs. -/
structure Recached (api after : HttpApi σ) : Prop where
  sessions : after.sessions = api.sessions
  routemap : after.routemap = api.routemap

theorem Recached.trans {api middle after : HttpApi σ} (first : Recached api middle)
    (second : Recached middle after) : Recached api after :=
  ⟨second.sessions.trans first.sessions, second.routemap.trans first.routemap⟩

theorem dropModified_recached (api : HttpApi σ) (path : Bytes) (stat : Stat) :
    Recached api (dropModified api path stat) := by
  unfold dropModified
  split
  · exact ⟨rfl, rfl⟩
  · split <;> exact ⟨rfl, rfl⟩

theorem cacheFile_recached {api after : HttpApi σ} {world last : World σ} {path : Bytes} {stat : Stat}
    {fuel : Nat} {filled : Bool}
    (runs : cacheFile system api world path stat fuel = some (filled, after, last)) :
    Recached api after := by
  unfold cacheFile at runs
  dsimp only at runs
  split_ifs at runs
  · cases runs
    exact ⟨rfl, rfl⟩
  · obtain ⟨⟨complete, cachedFile, read⟩, -, stored⟩ := Option.map_eq_some_iff.mp runs
    dsimp only at stored
    split_ifs at stored
    all_goals
      cases stored
      exact ⟨rfl, rfl⟩

/-- Serving a file leaves the sessions and the routes alone. -/
theorem respondHttp_recached {api : HttpApi σ} {world : World σ} {fd : Int} {view : View}
    {response : HttpResponse} {fuel : Nat} {answer : Answer σ}
    (runs : respondHttp system api world fd view response fuel = some answer) :
    Recached api answer.api := by
  unfold respondHttp at runs
  dsimp only at runs
  split at runs
  · cases runs
    exact ⟨rfl, rfl⟩
  · split_ifs at runs
    · cases runs
      exact ⟨rfl, rfl⟩
    · obtain ⟨⟨filled, cached, last⟩, caches, later⟩ := Option.bind_eq_some_iff.mp runs
      have kept := (dropModified_recached api _ _).trans (cacheFile_recached system caches)
      dsimp only at later
      split_ifs at later
      · cases later
        exact kept
      · obtain ⟨served, -, rfl⟩ := Option.map_eq_some_iff.mp later
        exact kept
    · obtain ⟨served, -, rfl⟩ := Option.map_eq_some_iff.mp runs
      exact dropModified_recached api _ _

end HttpApi

end Libjaypea
