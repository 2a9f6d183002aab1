import Mathlib.Data.List.Infix
import Libjaypea.ComAgreement

/-!
# A dialogue of com and comd

What `com` prints, and what reaches the shell, is made of what the other side put
in, in order; and the two replies of `comd` come before all else.  A message ends
at its first zero byte, and the shell may take only a first part of it.
-/

namespace Libjaypea

namespace Com

open Comd (ComdState ComdRoutine Server Calls identity verified startRoutine badRoutine routines)
open Transitions

/-- Without a connection the shell is closed, and no other routine is ever begun. -/
structure Shut (server : Server) : Prop where
  routine : server.routine = .shell
  closed : server.shell.opened = true → server.clients ≠ []

theorem shut_closeClient {server : Server} (shellRoutine : server.routine = .shell) (fd : Int) :
    Shut (server.closeClient fd) := by
  refine ⟨shellRoutine, fun opened => ?_⟩
  have closed : (server.closeClient fd).shell.opened = false := opened_sclose server.shell
  rw [closed] at opened
  cases opened

theorem Shut.step {server next : Server} {action : Comd.Action} (shut : Shut server)
    (steps : Comd.step server action = some next) : Shut next := by
  cases action with
  | accept fd added =>
      simp only [Comd.step, Option.ite_none_right_eq_some] at steps
      obtain ⟨_, steps⟩ := steps
      cases added with
      | false =>
          cases steps
          exact shut
      | true =>
          cases steps
          exact ⟨shut.routine, fun _ => List.cons_ne_nil _ _⟩
  | message fd data calls =>
      simp only [Comd.step, Option.ite_none_right_eq_some] at steps
      obtain ⟨member, steps⟩ := steps
      obtain ⟨clients, shellRoutine, _⟩ := @read_onRead server calls fd data shut.routine
      split_ifs at steps
      · cases steps
        exact shut_closeClient shellRoutine fd
      · cases steps
        refine ⟨shellRoutine, fun _ => ?_⟩
        rw [clients]
        exact List.ne_nil_of_mem member
  | disconnect fd =>
      simp only [Comd.step, Option.ite_none_right_eq_some] at steps
      obtain ⟨_, steps⟩ := steps
      cases steps
      exact shut_closeClient shut.routine fd
  | forward output =>
      simp only [Comd.step] at steps
      split_ifs at steps
      · cases output with
        | failed =>
            cases steps
            exact ⟨shut.routine, fun opened => shut.closed (opened_of_sclose opened)⟩
        | received data sendFails =>
            cases steps
            refine ⟨shut.routine, fun opened => shut.closed ?_⟩
            dsimp only at opened
            split at opened
            · exact opened_of_sclose opened
            · exact opened
      · cases steps
        exact shut

/-- What either side gets of the other. -/
structure Conversed (routine : ComdRoutine) (dialogue : Dialogue) : Prop where
  printed : dialogue.com.printed <+:
    (if routine = .shell then verified :: startRoutine :: dialogue.output
      else [verified, badRoutine]).map cString
  written : ∃ taken, taken <+: dialogue.typed.map cString ∧ Parts dialogue.written taken
  unwelcome : routine ≠ .shell → dialogue.typed = [] ∧ dialogue.written = []
  /-- Once nothing is on its way, the shell is in use, of each message that was
  typed a first part is written, and all output is printed. -/
  quiet : ∀ fd, dialogue.com.connection = .connected → dialogue.link = .accepted fd →
    dialogue.toComd = [] → dialogue.toCom = [] →
    routine = .shell ∧ dialogue.com.state = .exchangePackets ∧
      dialogue.comd.state = .exchangePackets ∧ dialogue.comd.shellClientFd = fd ∧
      Parts dialogue.written (dialogue.typed.map cString) ∧
      dialogue.com.printed = (verified :: startRoutine :: dialogue.output).map cString

/-- `write` takes all of the message that `comd` reads. -/
def Whole (dialogue : Dialogue) : Action → Prop
  | .comdReads calls => dialogue.comd.state = .exchangePackets →
      ∀ data ∈ dialogue.toComd.head?, ∀ taken ∈ calls.write, data.length ≤ taken
  | _ => True

/-- What was typed reaches the shell undivided. -/
structure Undivided (dialogue : Dialogue) : Prop where
  written : dialogue.written <+: dialogue.typed.map cString
  quiet : ∀ fd, dialogue.com.connection = .connected → dialogue.link = .accepted fd →
    dialogue.toComd = [] → dialogue.toCom = [] →
    dialogue.written = dialogue.typed.map cString

section Conversed

variable {routine : ComdRoutine} {dialogue next : Dialogue} {heard rest typed : List Bytes}

theorem routine_eq_shell (same : cString (routines routine) = routines .shell) :
    routine = .shell := by
  cases routine with
  | shell => rfl
  | sendFile => exact absurd same (by decide)
  | recvFile => exact absurd same (by decide)

/-- Only a `com` for the shell gets `comd` to exchange packets. -/
theorem Asked.shell (asked : Asked heard rest)
    (early : heard <+: identity :: routines routine :: typed) :
    routine = .shell ∧ rest <+: typed := by
  obtain ⟨first, second, rfl, _, shell⟩ := asked
  rw [List.cons_prefix_cons, List.cons_prefix_cons] at early
  obtain ⟨_, rfl, early⟩ := early
  exact ⟨routine_eq_shell shell, early⟩

theorem Agreed.heard_early (agreed : Agreed routine dialogue) :
    dialogue.heard <+: identity :: routines routine :: dialogue.typed.map cString := by
  apply List.IsPrefix.trans _ agreed.com.early
  exact ⟨dialogue.toComd, agreed.toComd⟩

theorem Agreed.printed (agreed : Agreed routine dialogue) :
    dialogue.com.printed <+:
      (if routine = .shell then verified :: startRoutine :: dialogue.output
        else [verified, badRoutine]).map cString := by
  have early := agreed.heard_early
  have told := agreed.comd.told
  apply List.IsPrefix.trans (⟨_, agreed.toCom⟩ : _ <+: dialogue.replied.map cString)
  apply List.IsPrefix.map
  generalize dialogue.heard = heard, dialogue.replied = replied, dialogue.output = output,
    dialogue.written = written at told early
  cases told with
  | nothing => exact List.nil_prefix
  | named =>
      split
      · exact List.prefix_append [verified] _
      · exact List.prefix_append [verified] _
  | refused other =>
      rw [List.cons_prefix_cons, List.cons_prefix_cons] at early
      obtain ⟨_, rfl, _⟩ := early
      have notShell : routine ≠ .shell := by
        rintro rfl
        exact other (by decide)
      refine ⟨[], ?_⟩
      rw [if_neg notShell, List.append_nil]
  | exchanged asked =>
      refine ⟨[], ?_⟩
      rw [if_pos (asked.shell early).1, List.append_nil]

theorem Agreed.written (agreed : Agreed routine dialogue) :
    ∃ taken, taken <+: dialogue.typed.map cString ∧ Parts dialogue.written taken := by
  have early := agreed.heard_early
  have told := agreed.comd.told
  generalize dialogue.heard = heard, dialogue.replied = replied, dialogue.output = output,
    dialogue.written = written at told early ⊢
  cases told with
  | nothing => exact ⟨[], List.nil_prefix, .nil⟩
  | named => exact ⟨[], List.nil_prefix, .nil⟩
  | refused _ => exact ⟨[], List.nil_prefix, .nil⟩
  | exchanged asked taken wrote =>
      exact ⟨_, taken.trans (asked.shell early).2, wrote⟩

theorem Agreed.unwelcome (agreed : Agreed routine dialogue) (other : routine ≠ .shell) :
    dialogue.typed = [] ∧ dialogue.written = [] := by
  have untyped : dialogue.typed = [] := by
    by_contra typed
    exact other (agreed.com.shell typed)
  obtain ⟨taken, inside, wrote⟩ := agreed.written
  rw [untyped, List.map_nil, List.prefix_nil] at inside
  subst inside
  exact ⟨untyped, List.forall₂_nil_right_iff.mp wrote⟩

/-- Before it exchanges packets, `comd` replies once to each message. -/
theorem Keeps.counts {replied output written : List Bytes} {state : ComdState}
    (keeps : Keeps heard replied output written state) :
    state = .exchangePackets ∧ 2 ≤ replied.length ∨
      heard.length = replied.length ∧ replied.length ≤ 1 := by
  cases state with
  | verifyIdentity =>
      obtain ⟨rfl, rfl, _⟩ := keeps
      exact .inr ⟨rfl, by decide⟩
  | selectRoutine =>
      obtain ⟨⟨_, rfl, _⟩, rfl, _⟩ := keeps
      exact .inr ⟨rfl, by decide⟩
  | exchangePackets =>
      obtain ⟨rfl, _⟩ := keeps
      exact .inl ⟨rfl, Nat.le_add_left 2 _⟩

/-- Before it exchanges packets, `com` has sent one message more than it has read. -/
theorem Speaks.counts {said printed : List Bytes} {state : ComdState}
    (speaks : Speaks routine said typed printed state) :
    state = .exchangePackets ∧ 2 ≤ printed.length ∨
      said.length = printed.length + 1 ∧ printed.length ≤ 1 := by
  cases state with
  | verifyIdentity =>
      obtain ⟨rfl, _, rfl⟩ := speaks
      exact .inr ⟨rfl, by decide⟩
  | selectRoutine =>
      obtain ⟨rfl, _, one⟩ := speaks
      rw [one]
      exact .inr ⟨rfl, Nat.le_refl 1⟩
  | exchangePackets => exact .inl ⟨rfl, speaks.2⟩

/-- The handshake cannot come to rest before it is over. -/
theorem Agreed.quiet (agreed : Agreed routine dialogue) {fd : Int}
    (connected : dialogue.com.connection = .connected) (linked : dialogue.link = .accepted fd)
    (noneToComd : dialogue.toComd = []) (noneToCom : dialogue.toCom = []) :
    routine = .shell ∧ dialogue.com.state = .exchangePackets ∧
      dialogue.comd.state = .exchangePackets ∧ dialogue.comd.shellClientFd = fd ∧
      Parts dialogue.written (dialogue.typed.map cString) ∧
      dialogue.com.printed = (verified :: startRoutine :: dialogue.output).map cString := by
  have heard := agreed.toComd
  have told := agreed.toCom
  rw [noneToComd, List.append_nil] at heard
  rw [noneToCom, List.map_nil, List.append_nil] at told
  have speaks := agreed.com.speaks connected
  have keeps := agreed.comd.keeps fd linked
  rw [← heard] at speaks
  have shown : dialogue.com.printed.length = dialogue.replied.length := by
    rw [told, List.length_map]
  have both : dialogue.com.state = .exchangePackets ∧ dialogue.comd.state = .exchangePackets := by
    rcases keeps.counts with ⟨server, long⟩ | server
    · rcases speaks.counts with ⟨client, _⟩ | client
      · exact ⟨client, server⟩
      · omega
    · rcases speaks.counts with ⟨_, long⟩ | client
      · omega
      · omega
  rw [both.1] at speaks
  rw [both.2] at keeps
  obtain ⟨replied, rest, asked, wrote⟩ := keeps
  obtain ⟨first, second, same, named, shell⟩ := asked
  rw [speaks.1] at same
  cases same
  rw [told, replied]
  exact ⟨routine_eq_shell shell, both.1, both.2, agreed.comd.client fd linked both.2, wrote, rfl⟩

/-- What `comd` reads is heard, and what it then writes is written. -/
theorem exists_reads {calls : Calls} (shellRoutine : dialogue.comd.routine = .shell)
    (steps : dialogue.comdReads calls = some next) :
    ∃ fd data rest result server replies wrote,
      dialogue.link = .accepted fd ∧ dialogue.toComd = data :: rest ∧
      Reads calls fd data dialogue.comd result server replies wrote ∧
      next.heard = dialogue.heard ++ [data] ∧ next.written = dialogue.written ++ wrote := by
  unfold Dialogue.comdReads at steps
  split at steps
  · rename_i fd data rest linked waiting
    obtain ⟨server, handles, rfl⟩ := Option.map_eq_some_iff.mp steps
    obtain ⟨_, _, added, log, reads⟩ := @read_onRead dialogue.comd calls fd data shellRoutine
    simp only [Comd.step, Option.ite_none_right_eq_some] at handles
    obtain ⟨_, handles⟩ := handles
    have logged : writtenIn (newEvents dialogue.comd server) = writtenIn added.reverse := by
      split_ifs at handles
      · cases handles
        rw [newEvents_of_append (closeClient_log log), writtenIn_disconnected]
      · cases handles
        rw [newEvents_of_append log]
    exact ⟨fd, data, rest, _, _, _, _, linked, waiting, reads, rfl,
      congrArg (dialogue.written ++ ·) logged⟩
  · cases steps

/-- What is written whole is all that was heard behind the first two messages. -/
theorem Agreed.whole_comdReads (agreed : Agreed routine dialogue)
    (early : dialogue.written <+: dialogue.heard.drop 2) {calls : Calls}
    (whole : Whole dialogue (.comdReads calls)) (steps : dialogue.comdReads calls = some next) :
    next.written <+: next.heard.drop 2 := by
  obtain ⟨fd, data, rest, result, server, replies, wrote, linked, waiting, reads, heard, written⟩ :=
    exists_reads agreed.comd.routine steps
  have later : dialogue.written <+: next.heard.drop 2 := by
    rw [heard]
    exact early.trans ((List.prefix_append dialogue.heard [data]).drop 2)
  rw [written]
  cases reads with
  | failed => rwa [List.append_nil]
  | refused => rwa [List.append_nil]
  | verified => rwa [List.append_nil]
  | started => rwa [List.append_nil]
  | @wrote taken _ exchanging writes =>
      have keeps := agreed.comd.keeps fd linked
      rw [exchanging] at keeps
      obtain ⟨-, rest, ⟨first, second, before, -⟩, parts⟩ := keeps
      rw [before] at early heard
      have all : dialogue.written = rest := early.eq_of_length parts.length_eq
      have long : data.length ≤ taken := by
        apply whole exchanging data _ taken writes
        rw [waiting]
        rfl
      rw [heard, all, List.take_of_length_le long]
      exact List.prefix_refl _

/-- A connection that is closed has nothing written. -/
theorem written_comdCloses (steps : dialogue.comdCloses = some next) :
    next.heard = dialogue.heard ∧ next.written = dialogue.written := by
  unfold Dialogue.comdCloses at steps
  split at steps
  · rename_i fd linked
    obtain ⟨server, closes, rfl⟩ := Option.map_eq_some_iff.mp steps
    simp only [Comd.step, Option.ite_none_right_eq_some] at closes
    obtain ⟨_, closes⟩ := closes
    cases closes
    refine ⟨rfl, ?_⟩
    dsimp only [Dialogue.served]
    rw [newEvents_of_append (closeClient_log (List.nil_append _).symm), writtenIn_disconnected]
    exact List.append_nil _
  · cases steps

theorem written_forward {output : Comd.Output} (steps : dialogue.forward output = some next) :
    next.heard = dialogue.heard ∧ next.written = dialogue.written := by
  obtain ⟨server, _, rfl⟩ := Option.map_eq_some_iff.mp steps
  cases output with
  | failed => exact ⟨rfl, rfl⟩
  | received data sendFails =>
      cases sendFails with
      | true => exact ⟨rfl, rfl⟩
      | false =>
          dsimp only
          split
          · exact ⟨rfl, rfl⟩
          · exact ⟨rfl, rfl⟩

theorem written_comReads {sendFails : Bool} (steps : dialogue.comReads sendFails = some next) :
    next.heard = dialogue.heard ∧ next.written = dialogue.written := by
  unfold Dialogue.comReads at steps
  split at steps
  · cases steps
  · simp only [Option.ite_none_right_eq_some, Option.some_inj] at steps
    obtain ⟨_, rfl⟩ := steps
    exact ⟨rfl, rfl⟩

theorem Agreed.whole_step (agreed : Agreed routine dialogue)
    (early : dialogue.written <+: dialogue.heard.drop 2) {action : Action}
    (whole : Whole dialogue action) (steps : dialogue.step action = some next) :
    next.written <+: next.heard.drop 2 := by
  have unread : next.heard = dialogue.heard ∧ next.written = dialogue.written →
      next.written <+: next.heard.drop 2 := by
    rintro ⟨heard, written⟩
    rwa [heard, written]
  cases action with
  | connect sendFails =>
      rw [Dialogue.step, Dialogue.connect, Option.ite_none_right_eq_some] at steps
      obtain ⟨_, steps⟩ := steps
      split at steps
      · cases steps
        exact early
      · cases steps
        exact early
  | comReads sendFails => exact unread (written_comReads steps)
  | comTypes data sendFails =>
      rw [Dialogue.step, Dialogue.comTypes, Option.ite_none_right_eq_some] at steps
      obtain ⟨_, steps⟩ := steps
      split at steps
      · cases steps
        exact early
      · cases steps
        exact early
  | comCloses =>
      rw [Dialogue.step, Dialogue.comCloses, Option.ite_none_right_eq_some] at steps
      obtain ⟨_, steps⟩ := steps
      cases steps
      exact early
  | accept fd added =>
      rw [Dialogue.step, Dialogue.accept, Option.ite_none_right_eq_some] at steps
      obtain ⟨_, steps⟩ := steps
      obtain ⟨server, _, rfl⟩ := Option.map_eq_some_iff.mp steps
      exact early
  | comdReads calls => exact agreed.whole_comdReads early whole steps
  | comdCloses => exact unread (written_comdCloses steps)
  | forward output => exact unread (written_forward steps)

/-- Where every `write` is whole, what is written is what was typed. -/
theorem Agreed.undivided (agreed : Agreed routine dialogue)
    (early : dialogue.written <+: dialogue.heard.drop 2) : Undivided dialogue := by
  have inside : dialogue.written <+: dialogue.typed.map cString :=
    early.trans (agreed.heard_early.drop 2)
  refine ⟨inside, fun fd connected linked noneToComd noneToCom => ?_⟩
  obtain ⟨-, -, -, -, parts, -⟩ := agreed.quiet connected linked noneToComd noneToCom
  exact inside.eq_of_length parts.length_eq

/-- Whenever `com` meets an idle `comd`: what `com` prints are the two replies and
the output of the shell, in order; what reaches the shell was typed, in order, and
is all of it where every `write` is whole; and the handshake does not come to rest
before both exchange packets. -/
theorem conversed_of_run {shellClientFd pid input output : Int} {earlier : List Comd.Action}
    {comd : Server} {actions : List Action} {last : Dialogue}
    (before : Run Comd.step anything (.start shellClientFd pid input output) earlier comd)
    (idle : comd.clients = [])
    (run : Run Dialogue.step anything (.start routine comd) actions last) :
    Conversed routine last ∧
      (Run Dialogue.step Whole (.start routine comd) actions last → Undivided last) := by
  have shut : Shut comd := by
    apply before.invariant _ (⟨rfl, fun opened => by cases opened⟩ : Shut (.start _ _ _ _))
    intro first action next shut _ steps
    exact shut.step steps
  have closed : comd.shell.opened = false := by
    rw [Bool.eq_false_iff]
    intro opened
    exact shut.closed opened idle
  have start := agreed_start routine idle shut.routine closed
  have agreed : Agreed routine last := by
    apply run.invariant _ start
    intro first action next agreed _ steps
    exact agreed.step steps
  refine ⟨⟨agreed.printed, agreed.written, agreed.unwelcome,
    fun fd connected linked noneToComd noneToCom =>
      agreed.quiet connected linked noneToComd noneToCom⟩, fun wholeRun => agreed.undivided ?_⟩
  have both : Agreed routine last ∧ last.written <+: last.heard.drop 2 := by
    apply wholeRun.invariant _ ⟨start, List.prefix_refl _⟩
    rintro first action next ⟨agreed, early⟩ whole steps
    exact ⟨agreed.step steps, agreed.whole_step early whole steps⟩
  exact both.2

instance (dialogue : Dialogue) (action : Action) : Decidable (Whole dialogue action) :=
  match action with
  | .comdReads calls =>
      inferInstanceAs (Decidable (dialogue.comd.state = .exchangePackets →
        ∀ data ∈ dialogue.toComd.head?, ∀ taken ∈ calls.write, data.length ≤ taken))
  | .connect _ => isTrue trivial
  | .comReads _ => isTrue trivial
  | .comTypes _ _ => isTrue trivial
  | .comCloses => isTrue trivial
  | .accept _ _ => isTrue trivial
  | .comdCloses => isTrue trivial
  | .forward _ => isTrue trivial

/-- A client was identified and has left again. -/
def visited : Server :=
  ⟨.selectRoutine, .shell, 0, ⟨false, 0, 0, 0⟩, 0, [],
    [.disconnected 8, .replied 8 verified false, .received 8 identity, .connected 8]⟩

/-- A shell is used for one command. -/
def oneCommand : List Action :=
  [.connect false, .accept 8 true, .comdReads Comd.Sample.calls, .comReads false,
    .comdReads Comd.Sample.calls, .comReads false, .comTypes (bytes "ls") false,
    .comdReads Comd.Sample.calls, .forward (.received (bytes "a b") false), .comReads false]

theorem conversed_of_run_command : ∃ last,
    Run Comd.step anything (.start 0 0 0 0)
      [.accept 8 true, .message 8 identity Comd.Sample.calls, .disconnect 8] visited ∧
    Run Dialogue.step anything (.start .shell visited) oneCommand last ∧
    last.com.printed = [verified, startRoutine, bytes "a b"] ∧ last.written = [bytes "ls"] ∧
    Conversed .shell last ∧ Undivided last := by
  have before : Run Comd.step anything (.start 0 0 0 0)
      [.accept 8 true, .message 8 identity Comd.Sample.calls, .disconnect 8] visited :=
    run_of_exec rfl
  have executes : (exec (guarded Dialogue.step Whole) (.start .shell visited) oneCommand).map
      (fun dialogue => (dialogue.com.printed, dialogue.written)) =
      some ([verified, startRoutine, bytes "a b"], [bytes "ls"]) := by
    decide +kernel
  obtain ⟨last, wholeRun, shows⟩ := exists_run_of_exec_guarded executes
  obtain ⟨printed, written⟩ := Prod.mk.inj shows
  have run := wholeRun.mono fun _ _ _ => trivial
  obtain ⟨conversed, undivided⟩ := conversed_of_run before rfl run
  exact ⟨last, before, run, printed, written, conversed, undivided wholeRun⟩

end Conversed

end Com

end Libjaypea
