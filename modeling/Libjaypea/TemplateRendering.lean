import Libjaypea.FileChunks
import Libjaypea.TemplatePages

/-!
# Whether a rendered page is the template with its values

The substitution is simultaneous as long as the page that the values make up
does not have both an opening and a closing.  The clean-up then removes the
placeholders without a value name by name, and leaves the texts alone when no
text reaches into the opening of a placeholder and no closing stands in front
of one.
-/

namespace Libjaypea

open Fuelled Replacement Util

namespace Template

open HttpApi (opening closing opening_eq closing_eq opening_ne_nil closing_ne_nil Stuck
  nextParameter Round substituted)

/-- The clean-up removes a placeholder with this in front and behind, and nothing else. -/
def Separate (before behind : Bytes) : Prop :=
  ¬ opening <:+: before ++ bytes "\x7b\x7b" ∧ (closing <:+: before → behind = [])

/-- The clean-up removes the placeholders without a value, and nothing else.
Those of one name go with the first of them. -/
def Removable (values : Bytes → Option Bytes) (before : Bytes) : List Hole → Prop
  | [] => True
  | hole :: holes =>
      match values hole.name with
      | some value => Removable values (before ++ value ++ hole.behind) holes
      | none =>
          Separate before (hole.behind ++ shown values holes) ∧
            Removable (Function.update values hole.name (some [])) (before ++ hole.behind) holes

/-- No parameter that the clean-up would find is in the page. -/
def Delimited (page : Bytes) : Prop :=
  opening <:+: page ∧ closing <:+: page

section Values

variable {values others : Bytes → Option Bytes} {name value before : Bytes}

theorem shown_congr {holes : List Hole}
    (same : ∀ hole ∈ holes, values hole.name = others hole.name) :
    shown values holes = shown others holes := by
  induction holes with
  | nil => rfl
  | cons hole holes ih =>
      obtain ⟨here, later⟩ := List.forall_mem_cons.mp same
      rw [shown_cons, shown_cons, here, ih later]

/-- To be shown as nothing is the same as to be missing. -/
theorem shown_update (missing : values name = none) (holes : List Hole) :
    shown (Function.update values name (some [])) holes = shown values holes := by
  induction holes with
  | nil => rfl
  | cons hole holes ih =>
      rw [shown_cons, shown_cons, ih]
      by_cases named : hole.name = name
      · rw [named, Function.update_self, missing]
        rfl
      · rw [Function.update_of_ne named]

theorem removable_of_some {hole : Hole} (known : values hole.name = some value)
    (holes : List Hole) :
    Removable values before (hole :: holes) ↔
      Removable values (before ++ value ++ hole.behind) holes := by
  rw [Removable, known]

theorem removable_of_none {hole : Hole} (missing : values hole.name = none) (holes : List Hole) :
    Removable values before (hole :: holes) ↔
      Separate before (hole.behind ++ shown values holes) ∧
        Removable (Function.update values hole.name (some [])) (before ++ hole.behind) holes := by
  rw [Removable, missing]

theorem removable_congr {holes : List Hole}
    (same : ∀ hole ∈ holes, values hole.name = others hole.name) :
    Removable values before holes ↔ Removable others before holes := by
  induction holes generalizing values others before with
  | nil => exact Iff.rfl
  | cons hole holes ih =>
      obtain ⟨here, later⟩ := List.forall_mem_cons.mp same
      cases known : values hole.name with
      | some value =>
          rw [removable_of_some known, removable_of_some (here ▸ known), ih later]
      | none =>
          rw [removable_of_none known, removable_of_none (here ▸ known), shown_congr later]
          apply and_congr_right'
          apply ih
          intro other member
          by_cases named : other.name = hole.name
          · rw [named, Function.update_self, Function.update_self]
          · rw [Function.update_of_ne named, Function.update_of_ne named, later other member]

/-- Whether the clean-up leaves the texts alone does not depend on when a
placeholder is filled. -/
theorem removable_fill (known : values name = some value) (holes : List Hole) :
    Removable values before holes ↔
      Removable values (before ++ (fill name value holes).1) (fill name value holes).2 := by
  induction holes generalizing values before with
  | nil => exact Iff.rfl
  | cons hole holes ih =>
      by_cases named : hole.name = name
      · rw [fill_cons_of_eq named, removable_of_some (named ▸ known), ih known]
        simp only [List.append_assoc]
      · let later : Hole := { hole with behind := hole.behind ++ (fill name value holes).1 }
        rw [fill_cons_of_ne named, List.append_nil]
        cases other : values hole.name with
        | some text =>
            rw [removable_of_some other, ih known,
              @removable_of_some values text before later other]
            simp only [List.append_assoc, later]
        | none =>
            have knownStill : Function.update values hole.name (some []) name = some value := by
              rw [Function.update_of_ne (Ne.symm named), known]
            rw [removable_of_none other, ih knownStill,
              @removable_of_none values before later other]
            simp only [List.append_assoc, shown_fill known, later]

end Values

section CleanUp

variable {body page : Bytes}

theorem nextParameter_eq_none_iff : nextParameter body = none ↔ ¬ Delimited body := by
  unfold nextParameter Delimited
  rw [not_and_or, ← find_eq_none_iff, ← find_eq_none_iff]
  cases find opening body <;> cases find closing body <;> simp

theorem not_stuck_of_converges
    (cleans : Converges (fun fuel => HttpApi.cleanUp fuel body) page) : ¬ Stuck body := by
  intro stuck
  obtain ⟨fuel, answer⟩ := cleans
  exact absurd (answer.symm.trans (HttpApi.cleanUp_of_stuck stuck fuel)) (Option.some_ne_none page)

/-- A text that still has a parameter is left by a round only. -/
theorem reflTransGen_round_iff {next : Bytes} (round : Round body next) (clear : ¬ Delimited page) :
    Relation.ReflTransGen Round body page ↔ Relation.ReflTransGen Round next page := by
  constructor
  · intro rounds
    rcases Relation.ReflTransGen.cases_head rounds with rfl | ⟨other, first, rest⟩
    · obtain ⟨-, parameter, found, -⟩ := round
      rw [nextParameter_eq_none_iff.mpr clear] at found
      cases found
    · rwa [round.unique first]
  · exact fun rounds => .head round rounds

/-- The clean-up ends with the text that its rounds lead to. -/
theorem converges_cleanUp_iff (short : body.length < 2 ^ 63) :
    Converges (fun fuel => HttpApi.cleanUp fuel body) page ↔
      Relation.ReflTransGen Round body page ∧ ¬ Delimited page := by
  induction length : body.length using Nat.strongRecOn generalizing body with
  | ind size ih =>
      cases next : nextParameter body with
      | none =>
          have stays : Converges (fun fuel => HttpApi.cleanUp fuel body) body :=
            ⟨1, HttpApi.cleanUp_of_none next 0⟩
          constructor
          · intro cleans
            rw [(HttpApi.cleanUp_stable body).unique cleans stays]
            exact ⟨.refl, nextParameter_eq_none_iff.mp next⟩
          · rintro ⟨rounds, -⟩
            rcases Relation.ReflTransGen.cases_head rounds with rfl | ⟨other, first, -⟩
            · exact stays
            · obtain ⟨-, parameter, found, -⟩ := first
              rw [next] at found
              cases found
      | some parameter =>
          by_cases stuck : Stuck body
          · apply iff_of_false
            · exact fun cleans => not_stuck_of_converges cleans stuck
            · rintro ⟨rounds, clear⟩
              rcases Relation.ReflTransGen.cases_head rounds with rfl | ⟨other, first, -⟩
              · exact stuck.nextParameter_ne_none (nextParameter_eq_none_iff.mpr clear)
              · exact first.1 stuck
          · have round : Round body (replaced parameter [] body) := ⟨stuck, parameter, next, rfl⟩
            have shorter := round.shorter
            rw [HttpApi.converges_cleanUp_round short round, ih _ (by omega) (by omega) rfl]
            apply and_congr_left
            exact fun clear => (reflTransGen_round_iff round clear).symm

/-- A parameter ends with the first closing, or else with the page. -/
theorem parameter_cases {parameter : Bytes} (next : nextParameter body = some parameter) :
    (∃ stem, parameter = stem ++ closing ∧ Free closing stem closing) ∨
      ∃ front, body = front ++ parameter ∧ Free opening front parameter := by
  obtain ⟨parameterStart, parameterEnd, starts, ends, next⟩ :=
    HttpApi.exists_find_of_nextParameter next
  by_cases before : parameterStart ≤ parameterEnd
  · rw [if_pos before] at next
    obtain ⟨front, back, rfl, rfl, free⟩ := exists_of_find_eq_some ends
    have last : (front.drop parameterStart).length = front.length - parameterStart :=
      List.length_drop
    refine .inl ⟨front.drop parameterStart, ?_, ?_⟩
    · rw [← next, List.drop_append_of_le_length before, ← List.append_assoc, List.take_left']
      rw [List.length_append, last, closing_eq, List.length_replicate]
    · rw [← List.take_append_drop parameterStart front, free_append] at free
      exact free.2.of_append
  · rw [if_neg before] at next
    obtain ⟨front, behind, rfl, rfl, free⟩ := exists_of_find_eq_some starts
    rw [List.drop_left] at next
    rw [← next]
    exact .inr ⟨front, rfl, free⟩

/-- Without an opening the page stays as it is. -/
theorem page_eq_of_unopened (absent : ¬ opening <:+: body)
    (cleans : Converges (fun fuel => HttpApi.cleanUp fuel body) page) : page = body := by
  have next : nextParameter body = none :=
    nextParameter_eq_none_iff.mpr fun delimited => absent delimited.1
  exact (HttpApi.cleanUp_stable body).unique cleans ⟨1, HttpApi.cleanUp_of_none next 0⟩

/-- When the closing comes first the rest of the page is removed. -/
theorem replaced_rest {front rest : Bytes} (free : Free opening front rest)
    (begins : opening <+: rest) : replaced rest [] (front ++ rest) = front := by
  have nonempty : rest ≠ [] := by
    rintro rfl
    exact opening_ne_nil (List.prefix_nil.mp begins)
  have removed := replaced_append_pattern [] nonempty []
  rw [List.append_nil, replaced_nil, List.append_nil] at removed
  rw [replaced_append_of_free [] (free.lengthen begins), removed, List.append_nil]

theorem delimited_placeholder (name front back : Bytes) :
    Delimited (front ++ (placeholder name ++ back)) := by
  rw [placeholder]
  constructor
  · exact ⟨front, name ++ closing ++ back, by simp only [List.append_assoc]⟩
  · exact ⟨front ++ (opening ++ name), back, by simp only [List.append_assoc]⟩

/-- Nothing is left of a page but its texts. -/
theorem length_le_of_converges {first : Bytes} {holes : List Hole}
    (short : (first ++ written holes).length < 2 ^ 63)
    (cleans : Converges (fun fuel => HttpApi.cleanUp fuel (first ++ written holes)) page) :
    page.length ≤ (first ++ texts holes).length := by
  induction length : (first ++ written holes).length using Nat.strongRecOn
    generalizing first holes with
  | ind size ih =>
      cases next : nextParameter (first ++ written holes) with
      | none =>
          cases holes with
          | nil =>
              have stays := (HttpApi.cleanUp_stable _).unique cleans
                ⟨1, HttpApi.cleanUp_of_none next 0⟩
              rw [stays]
              exact Nat.le_refl _
          | cons hole holes =>
              rw [written_cons, nextParameter_eq_none_iff] at next
              exact absurd (delimited_placeholder hole.name first _) next
      | some parameter =>
          have moves := not_stuck_of_converges cleans
          have round : Round (first ++ written holes)
              (replaced parameter [] (first ++ written holes)) := ⟨moves, parameter, next, rfl⟩
          have shorter := round.shorter
          rw [HttpApi.converges_cleanUp_round short round] at cleans
          obtain ⟨-, -, -, -, begins⟩ := HttpApi.exists_of_nextParameter next
          rcases parameter_cases next with ⟨stem, rfl, only⟩ | ⟨front, split, free⟩
          · obtain ⟨after, left, removes, fewer⟩ := exists_page_of_removed begins only first holes
            rw [removes] at cleans shorter
            exact (ih _ (by omega) (by omega) cleans rfl).trans fewer
          · rw [split, replaced_rest free begins] at cleans
            rw [page_eq_of_unopened (free.absent opening_ne_nil) cleans, List.length_append]
            apply Nat.le_add_right_of_le
            cases holes with
            | nil =>
                rw [written_nil, List.append_nil] at split
                rw [split, List.length_append]
                exact Nat.le_add_right _ _
            | cons hole holes =>
                apply free.length_le
                rw [← split, written_cons, placeholder_eq, List.append_assoc]

end CleanUp

section FirstHole

variable {before back : Bytes}

/-- The first opening of a page begins in the text in front of the first
placeholder, or the placeholder begins with it. -/
theorem exists_first_opening (before back : Bytes) :
    ∃ front joined, before = front ++ joined ∧
      Free opening front (joined ++ (opening ++ back)) ∧ opening <+: joined ++ (opening ++ back) ∧
      (joined = [] ↔ ¬ opening <:+: before ++ bytes "\x7b\x7b") := by
  induction before with
  | nil =>
      have few : ¬ opening <:+: [] ++ bytes "\x7b\x7b" := by decide
      exact ⟨[], [], rfl, trivial, List.prefix_append opening back, iff_of_true rfl few⟩
  | cons first before ih =>
      by_cases here : opening <+: first :: (before ++ (opening ++ back))
      · have inside : opening <:+: first :: before ++ bytes "\x7b\x7b" := by
          apply List.IsPrefix.isInfix
          apply List.prefix_of_prefix_length_le here
          · have two : first :: (before ++ (opening ++ back)) =
                first :: before ++ bytes "\x7b\x7b" ++ (ch '\x7b' :: back) := by
              rw [List.append_assoc]
              rfl
            rw [two]
            exact List.prefix_append _ _
          · rw [opening_eq, List.length_replicate, List.length_append, List.length_cons]
            change 3 ≤ before.length + 1 + 2
            omega
        exact ⟨[], first :: before, rfl, trivial, here,
          iff_of_false (List.cons_ne_nil first before) (not_not_intro inside)⟩
      · obtain ⟨front, joined, rfl, free, begins, nothing⟩ := ih
        refine ⟨first :: front, joined, rfl, ⟨?_, free⟩, begins, nothing.trans ?_⟩
        · rwa [List.append_assoc] at here
        · rw [not_iff_not, List.cons_append, List.infix_cons_iff]
          constructor
          · exact Or.inr
          · rintro (start | later)
            · exfalso
              apply here
              apply start.trans
              rw [List.cons_prefix_cons]
              refine ⟨rfl, ?_⟩
              rw [List.prefix_append_right_inj]
              exact ⟨ch '\x7b' :: back, rfl⟩
            · exact later

/-- The first closing behind a text without one is that of the placeholder. -/
theorem free_closing (absent : ¬ closing <:+: before) {name : Bytes} (plain : Plain name) :
    Free closing (before ++ (opening ++ name)) (closing ++ back) := by
  rw [free_append]
  constructor
  · have foreign : ch '\x7b' ∉ closing := by decide
    exact free_before_foreign foreign absent _
  · have absentName : ch '\x7d' ∉ opening ++ name := by
      rw [List.mem_append, not_or]
      exact ⟨by decide, plain.2⟩
    exact free_of_notMem absentName _

/-- What the first round removes when no closing comes before the placeholder. -/
theorem nextParameter_of_unclosed (absent : ¬ closing <:+: before) {name : Bytes}
    (plain : Plain name) {front joined : Bytes} (split : before = front ++ joined)
    (free : Free opening front (joined ++ (opening ++ (name ++ closing ++ back))))
    (begins : opening <+: joined ++ (opening ++ (name ++ closing ++ back))) :
    nextParameter (before ++ (placeholder name ++ back)) = some (joined ++ placeholder name) ∧
      ¬ Stuck (before ++ (placeholder name ++ back)) := by
  have starts : find opening (before ++ (placeholder name ++ back)) = some front.length := by
    obtain ⟨rest, equal⟩ := begins
    have whole : before ++ (placeholder name ++ back) = front ++ (opening ++ rest) := by
      rw [equal, split, placeholder]
      simp only [List.append_assoc]
    rw [← equal] at free
    rw [whole, find_append_pattern free]
  have ends : find closing (before ++ (placeholder name ++ back)) =
      some (before ++ (opening ++ name)).length := by
    have whole : before ++ (placeholder name ++ back) =
        before ++ (opening ++ name) ++ (closing ++ back) := by
      rw [placeholder]
      simp only [List.append_assoc]
    rw [whole, find_append_pattern (free_closing absent plain)]
  have lengths : (before ++ (opening ++ name)).length =
      front.length + joined.length + (3 + name.length) := by
    rw [split, opening_eq]
    simp only [List.length_append, List.length_replicate]
  have behind : (before ++ (placeholder name ++ back)).drop front.length =
      joined ++ placeholder name ++ back := by
    rw [split, List.append_assoc, List.drop_left, List.append_assoc]
  constructor
  · unfold nextParameter
    rw [starts, ends]
    dsimp only
    rw [if_pos (by omega), behind, List.take_left']
    rw [lengths, List.length_append, placeholder, opening_eq, closing_eq]
    simp only [List.length_append, List.length_replicate]
    omega
  · rintro ⟨index, closed, opened⟩
    rw [ends, Option.some.injEq] at closed
    rw [starts, Option.some.injEq] at opened
    omega

/-- With a closing in front of the placeholder only the text in front of the
first opening is left. -/
theorem page_eq_of_closed (closed : closing <:+: before) (unopened : ¬ opening <:+: before)
    {front joined rest page : Bytes} (split : before = front ++ joined)
    (free : Free opening front (joined ++ rest)) (begins : opening <+: joined ++ rest)
    (short : (before ++ rest).length < 2 ^ 63)
    (cleans : Converges (fun fuel => HttpApi.cleanUp fuel (before ++ rest)) page) :
    page = front := by
  have whole : before ++ rest = front ++ (joined ++ rest) := by
    rw [split, List.append_assoc]
  have starts : find opening (before ++ rest) = some front.length := by
    obtain ⟨behind, equal⟩ := begins
    rw [← equal] at free
    rw [whole, ← equal, find_append_pattern free]
  obtain ⟨parameterEnd, ends⟩ : ∃ index, find closing (before ++ rest) = some index := by
    rw [← Option.ne_none_iff_exists', Ne, find_eq_none_iff, not_not]
    exact closed.trans (List.prefix_append before rest).isInfix
  have early : parameterEnd + 3 ≤ before.length := by
    obtain ⟨first, last, rfl⟩ := closed
    obtain ⟨other, behind, equal, rfl, otherFree⟩ := exists_of_find_eq_some ends
    have same : other ++ (closing ++ behind) = first ++ (closing ++ (last ++ rest)) := by
      rw [← equal]
      simp only [List.append_assoc]
    have bound := otherFree.length_le same
    simp only [List.length_append, closing_eq, List.length_replicate]
    omega
  have order : ¬ front.length ≤ parameterEnd := by
    intro inOrder
    have apart := HttpApi.apart_of_find starts ends
    apply unopened
    have long : opening.length ≤ joined.length := by
      have lengths := congrArg List.length split
      rw [List.length_append] at lengths
      rw [opening_eq, List.length_replicate]
      omega
    have inside : opening <+: joined :=
      List.prefix_of_prefix_length_le begins (List.prefix_append joined rest) long
    rw [split]
    exact inside.isInfix.trans (List.suffix_append front joined).isInfix
  have next : nextParameter (before ++ rest) = some (joined ++ rest) := by
    unfold nextParameter
    rw [starts, ends]
    dsimp only
    rw [if_neg order, whole, List.drop_left]
  have round : Round (before ++ rest) (replaced (joined ++ rest) [] (before ++ rest)) :=
    ⟨not_stuck_of_converges cleans, joined ++ rest, next, rfl⟩
  rw [HttpApi.converges_cleanUp_round short round, whole, replaced_rest free begins] at cleans
  exact page_eq_of_unopened (free.absent opening_ne_nil) cleans

end FirstHole

section Missing

theorem texts_fill (name : Bytes) (holes : List Hole) :
    (fill name [] holes).1 ++ texts (fill name [] holes).2 = texts holes :=
  @shown_fill (fun _ => some []) name [] rfl holes

/-- Where nothing is shown nothing but placeholders is removed. -/
theorem removable_of_shown_nil {values : Bytes → Option Bytes} {before : Bytes} {holes : List Hole}
    (unopened : ¬ opening <:+: before ++ bytes "\x7b\x7b") (nothing : shown values holes = []) :
    Removable values before holes := by
  induction holes generalizing values with
  | nil => trivial
  | cons hole holes ih =>
      rw [shown_cons, List.append_eq_nil_iff, List.append_eq_nil_iff] at nothing
      obtain ⟨noValue, noText, later⟩ := nothing
      cases known : values hole.name with
      | some value =>
          rw [known, Option.getD_some] at noValue
          rw [removable_of_some known, noValue, noText, List.append_nil, List.append_nil]
          exact ih later
      | none =>
          rw [removable_of_none known, noText, List.append_nil]
          refine ⟨⟨unopened, fun _ => later⟩, ih ?_⟩
          rw [shown_update known, later]

/-- No text of a page contains a placeholder when the texts do not have both delimiters. -/
theorem absent_of_not_delimited {values : Bytes → Option Bytes} {first : Bytes}
    {holes : List Hole} (clear : ¬ Delimited (first ++ shown values holes)) (name : Bytes) :
    ¬ placeholder name <:+: first ∧ ∀ hole ∈ holes, ¬ placeholder name <:+: hole.behind := by
  have absent : ∀ text, text <:+: first ++ shown values holes → ¬ placeholder name <:+: text := by
    intro text inside found
    have delimited := delimited_placeholder name [] []
    rw [List.nil_append, List.append_nil] at delimited
    have here := found.trans inside
    exact clear ⟨delimited.1.trans here, delimited.2.trans here⟩
  refine ⟨absent first (List.prefix_append first _).isInfix, ?_⟩
  intro hole member
  apply absent
  have part : (values hole.name).getD [] ++ hole.behind <:+: shown values holes := by
    rw [shown, List.flatMap_def]
    exact List.infix_of_mem_flatten (List.mem_map_of_mem member)
  have behind := (List.suffix_append ((values hole.name).getD []) hole.behind).isInfix
  exact (behind.trans part).trans (List.suffix_append first _).isInfix

/-- What is removed together with a placeholder is missing in the end. -/
theorem length_lt_of_joined {front joined name behind page : Bytes} {holes : List Hole}
    (joins : joined ≠ []) (begins : opening <+: joined ++ placeholder name)
    (only : Free closing (joined ++ (opening ++ name)) closing)
    (free : Free opening front (joined ++ placeholder name ++ (behind ++ written holes)))
    (short : (front ++ (joined ++ placeholder name ++ (behind ++ written holes))).length < 2 ^ 63)
    (next : nextParameter (front ++ (joined ++ placeholder name ++ (behind ++ written holes))) =
      some (joined ++ placeholder name))
    (cleans : Converges (fun fuel => HttpApi.cleanUp fuel
      (front ++ (joined ++ placeholder name ++ (behind ++ written holes)))) page) :
    page.length < (front ++ joined ++ (behind ++ texts holes)).length := by
  have shape : joined ++ placeholder name = joined ++ (opening ++ name) ++ closing := by
    rw [placeholder]
    simp only [List.append_assoc]
  have round : Round (front ++ (joined ++ placeholder name ++ (behind ++ written holes)))
      (replaced (joined ++ placeholder name) []
        (front ++ (joined ++ placeholder name ++ (behind ++ written holes)))) :=
    ⟨not_stuck_of_converges cleans, _, next, rfl⟩
  have shorter := round.shorter
  rw [HttpApi.converges_cleanUp_round short round] at cleans
  obtain ⟨after, left, removes, fewer⟩ :=
    exists_page_of_removed (shape ▸ begins) only behind holes
  rw [← shape] at removes
  rw [replaced_append_of_free [] (free.lengthen begins),
    replaced_append_pattern [] (HttpApi.ne_nil_of_nextParameter next), List.nil_append, removes,
    ← List.append_assoc] at cleans shorter
  have bound := length_le_of_converges (by omega) cleans
  have positive := List.length_pos_iff.mpr joins
  simp only [List.length_append] at bound fewer ⊢
  omega

section First

variable {front joined first page : Bytes} {hole : Hole} {holes : List Hole}

/-- Behind a closing the clean-up removes everything from the first opening on. -/
theorem eq_texts_iff_of_closed {rest : Bytes} (closed : closing <:+: first)
    (unopened : ¬ opening <:+: first) (split : first = front ++ joined)
    (free : Free opening front (joined ++ rest)) (begins : opening <+: joined ++ rest)
    (nothing : joined = [] ↔ ¬ opening <:+: first ++ bytes "\x7b\x7b")
    (short : (first ++ rest).length < 2 ^ 63)
    (cleans : Converges (fun fuel => HttpApi.cleanUp fuel (first ++ rest)) page) :
    page = first ++ (hole.behind ++ texts holes) ↔
      (joined = [] ∧ (closing <:+: first → hole.behind ++ texts holes = [])) ∧
        Removable (Function.update (fun _ => none) hole.name (some [])) (first ++ hole.behind)
          holes := by
  rw [page_eq_of_closed closed unopened split free begins short cleans]
  by_cases joins : joined = []
  · rw [joins, List.append_nil] at split
    rw [← split, List.self_eq_append_right]
    constructor
    · intro last
      obtain ⟨noText, later⟩ := List.append_eq_nil_iff.mp last
      refine ⟨⟨joins, fun _ => last⟩, ?_⟩
      rw [noText, List.append_nil]
      apply removable_of_shown_nil (nothing.mp joins)
      exact (shown_update rfl holes).trans later
    · exact fun separate => separate.1.2 closed
  · refine iff_of_false (fun same => joins ?_) fun separate => joins separate.1.1
    have lengths := congrArg List.length (same.trans (by rw [split, List.append_assoc]))
    simp only [List.length_append] at lengths
    exact List.length_eq_zero_iff.mp (by omega)

/-- An opening that begins in front of the placeholder is removed with it. -/
theorem ne_texts_of_joined (joins : joined ≠ []) (unclosed : ¬ closing <:+: first)
    (split : first = front ++ joined)
    (free : Free opening front
      (joined ++ (opening ++ (hole.name ++ closing ++ (hole.behind ++ written holes)))))
    (begins : opening <+:
      joined ++ (opening ++ (hole.name ++ closing ++ (hole.behind ++ written holes))))
    (next : nextParameter (first ++ (placeholder hole.name ++ (hole.behind ++ written holes))) =
      some (joined ++ placeholder hole.name))
    (short : (first ++ (placeholder hole.name ++ (hole.behind ++ written holes))).length < 2 ^ 63)
    (cleans : Converges (fun fuel => HttpApi.cleanUp fuel
      (first ++ (placeholder hole.name ++ (hole.behind ++ written holes)))) page) :
    page ≠ first ++ (hole.behind ++ texts holes) := by
  intro same
  have regroup : first ++ (placeholder hole.name ++ (hole.behind ++ written holes)) =
      front ++ (joined ++ placeholder hole.name ++ (hole.behind ++ written holes)) := by
    rw [split]
    simp only [List.append_assoc]
  have inner : joined ++ (opening ++ (hole.name ++ closing ++ (hole.behind ++ written holes))) =
      joined ++ placeholder hole.name ++ (hole.behind ++ written holes) := by
    rw [placeholder]
    simp only [List.append_assoc]
  have only := @free_closing first [] unclosed hole.name hole.plain
  rw [List.append_nil, split, List.append_assoc, free_append] at only
  rw [regroup] at cleans short next
  rw [inner] at free begins
  have reaches : opening <+: joined ++ placeholder hole.name := by
    apply List.prefix_of_prefix_length_le begins (List.prefix_append _ _)
    rw [placeholder]
    simp only [List.length_append]
    omega
  have bound := length_lt_of_joined joins reaches only.2 free short next cleans
  rw [same, split] at bound
  exact Nat.lt_irrefl _ bound

/-- A placeholder that the clean-up finds goes with all others of its name. -/
theorem round_fill (clear : ¬ Delimited (first ++ texts (hole :: holes)))
    (next : nextParameter (first ++ written (hole :: holes)) = some (placeholder hole.name))
    (moves : ¬ Stuck (first ++ written (hole :: holes))) :
    Round (first ++ written (hole :: holes))
      (first ++ (fill hole.name [] (hole :: holes)).1 ++
        written (fill hole.name [] (hole :: holes)).2) := by
  obtain ⟨absentFirst, absent⟩ := absent_of_not_delimited clear hole.name
  rw [← replaced_page hole.plain [] absentFirst absent]
  exact ⟨moves, placeholder hole.name, next, rfl⟩

end First

/-- The clean-up of placeholders without a value leaves the texts alone
exactly when they are removable. -/
theorem cleaned_eq_texts_iff {first page : Bytes} {holes : List Hole}
    (clear : ¬ Delimited (first ++ texts holes))
    (short : (first ++ written holes).length < 2 ^ 63)
    (cleans : Converges (fun fuel => HttpApi.cleanUp fuel (first ++ written holes)) page) :
    page = first ++ texts holes ↔ Removable (fun _ => none) first holes := by
  induction count : holes.length using Nat.strongRecOn generalizing first holes with
  | ind size ih =>
      cases holes with
      | nil =>
          rw [written_nil] at cleans
          have next : nextParameter (first ++ []) = none := nextParameter_eq_none_iff.mpr clear
          have stays := (HttpApi.cleanUp_stable _).unique cleans
            ⟨1, HttpApi.cleanUp_of_none next 0⟩
          exact iff_of_true stays trivial
      | cons hole holes =>
          have shows : texts (hole :: holes) = hole.behind ++ texts holes := shown_cons _ _ _
          have whole : placeholder hole.name ++ (hole.behind ++ written holes) =
              opening ++ (hole.name ++ closing ++ (hole.behind ++ written holes)) := by
            rw [placeholder]
            simp only [List.append_assoc]
          obtain ⟨front, joined, split, free, begins, nothing⟩ := exists_first_opening first
            (hole.name ++ closing ++ (hole.behind ++ written holes))
          rw [removable_of_none rfl, Separate, ← nothing, shows]
          by_cases closed : closing <:+: first
          · have unopened : ¬ opening <:+: first := by
              intro opened
              have inside := (List.prefix_append first (texts (hole :: holes))).isInfix
              exact clear ⟨opened.trans inside, closed.trans inside⟩
            rw [written_cons, whole] at cleans short
            exact eq_texts_iff_of_closed closed unopened split free begins nothing short cleans
          obtain ⟨next, moves⟩ := nextParameter_of_unclosed closed hole.plain split free begins
          by_cases joins : joined = []
          · rw [joins, List.nil_append, ← written_cons] at next
            rw [← written_cons] at moves
            have round := round_fill clear next moves
            have shorter := round.shorter
            rw [HttpApi.converges_cleanUp_round short round] at cleans
            have same : first ++ (fill hole.name [] (hole :: holes)).1 ++
                texts (fill hole.name [] (hole :: holes)).2 =
                  first ++ texts (hole :: holes) := by
              rw [List.append_assoc, texts_fill]
            have fewer := @length_fill_le hole.name [] holes
            rw [List.length_cons] at count
            have step := ih (fill hole.name [] holes).2.length (by omega) (same ▸ clear)
              (by omega) cleans (by rw [fill_cons_of_eq rfl])
            rw [same, shows, fill_cons_of_eq rfl, List.nil_append] at step
            have known : Function.update (fun _ => none) hole.name (some []) hole.name =
                some ([] : Bytes) := Function.update_self _ _ _
            rw [step, and_iff_right ⟨joins, fun found => absurd found closed⟩,
              removable_fill known holes, List.append_assoc]
            apply removable_congr
            intro other member
            rw [Function.update_of_ne (name_of_mem_fill member).1]
          · rw [written_cons] at cleans short
            exact iff_of_false (ne_texts_of_joined joins closed split free begins next short cleans)
              fun separate => joins separate.1.1

end Missing

section Substitution

variable {parameters : KeyedList Bytes Bytes} {values : Bytes → Option Bytes}

/-- The substitution fills the page, one name after the other. -/
theorem exists_page_of_substituted
    (known : ∀ parameter ∈ parameters, Plain parameter.1 ∧ values parameter.1 = some parameter.2)
    {first : Bytes} {holes : List Hole} (clear : ¬ Delimited (first ++ shown values holes)) :
    ∃ after left, substituted parameters (first ++ written holes) = after ++ written left ∧
      after ++ shown values left = first ++ shown values holes ∧
      (Removable values first holes ↔ Removable values after left) ∧
      ∀ hole ∈ left, hole.name ∉ parameters.keys ∧ ∃ before ∈ holes, hole.name = before.name := by
  induction parameters generalizing first holes with
  | nil =>
      refine ⟨first, holes, rfl, rfl, Iff.rfl, ?_⟩
      exact fun hole member => ⟨List.not_mem_nil, hole, member, rfl⟩
  | cons parameter parameters ih =>
      obtain ⟨⟨plain, value⟩, later⟩ := List.forall_mem_cons.mp known
      obtain ⟨absentFirst, absent⟩ := absent_of_not_delimited clear parameter.1
      have same : first ++ (fill parameter.1 parameter.2 holes).1 ++
          shown values (fill parameter.1 parameter.2 holes).2 = first ++ shown values holes := by
        rw [List.append_assoc, shown_fill value]
      obtain ⟨after, left, substitutes, shows, removable, names⟩ := ih later (same ▸ clear)
      refine ⟨after, left, ?_, shows.trans same, (removable_fill value holes).trans removable, ?_⟩
      · rw [← substitutes, ← replaced_page plain parameter.2 absentFirst absent]
        rfl
      · intro hole member
        obtain ⟨outside, before, inside, named⟩ := names hole member
        obtain ⟨different, origin, among, namedOrigin⟩ := name_of_mem_fill inside
        rw [KeyedList.keys_cons, List.mem_cons, not_or]
        exact ⟨⟨named ▸ different, outside⟩, origin, among, named.trans namedOrigin⟩

/-- The rendered page is the template with the values in it exactly when the
page that this makes does not have both delimiters and the placeholders without
a value are removable. -/
theorem rendered_eq_shown_iff (distinct : parameters.keys.Nodup)
    (plain : ∀ name ∈ parameters.keys, Plain name) {first page : Bytes} {holes : List Hole}
    (short : (substituted parameters (first ++ written holes)).length < 2 ^ 63)
    (renders : Converges (HttpApi.templatize parameters (first ++ written holes)) page) :
    page = first ++ shown parameters.get? holes ↔
      ¬ Delimited (first ++ shown parameters.get? holes) ∧
        Removable parameters.get? first holes := by
  rw [HttpApi.converges_templatize_iff] at renders
  by_cases delimited : Delimited (first ++ shown parameters.get? holes)
  · refine iff_of_false ?_ fun clear => clear.1 delimited
    rintro rfl
    exact ((converges_cleanUp_iff short).mp renders).2 delimited
  · have known : ∀ parameter ∈ parameters,
        Plain parameter.1 ∧ parameters.get? parameter.1 = some parameter.2 :=
      fun parameter member => ⟨plain parameter.1 (List.mem_map_of_mem member),
        KeyedList.get?_of_mem distinct member⟩
    obtain ⟨after, left, substitutes, shows, removable, names⟩ :=
      exists_page_of_substituted known delimited
    have unknown : ∀ hole ∈ left, parameters.get? hole.name = none :=
      fun hole member => KeyedList.get?_eq_none_iff.mpr (names hole member).1
    have same : shown parameters.get? left = texts left := shown_congr unknown
    rw [substitutes] at short renders
    have alike := @removable_congr _ (fun _ => none) after left unknown
    rw [and_iff_right delimited, removable, alike, ← shows, same]
    apply cleaned_eq_texts_iff ?_ short renders
    rwa [← same, shows]

end Substitution

section Serving

open HttpApi (isHtml respond serve templatize)

variable {σ : Type} {system : System σ} {api : HttpApi σ} {world : World σ} {view : View}
  {path : Bytes} {stat : Stat}

/-- The template that is rendered, and the state in which the page is sent. -/
inductive Renders (system : System σ) (api : HttpApi σ) (world : World σ) (view : View)
    (path : Bytes) (stat : Stat) : Bytes → World σ → Prop
  | cached {file : CachedFile} (entry : KeyedList.get? api.fileCache path = some file)
      (small : file.dataLength < bufferLimit) (html : isHtml path) :
      Renders system api world view path stat (file.content system.heap) world
  | read {fileFd : Int} {buffer : Bytes} {opened readAfter closed : World σ}
      (entry : KeyedList.get? api.fileCache path = none) (small : stat.size < bufferLimit)
      (html : isHtml path) (opens : world.openFile system view.route = (fileFd, opened))
      (valid : 0 ≤ fileFd) (reads : opened.read system fileFd = (some buffer, readAfter))
      (closes : readAfter.close system fileFd = (true, closed))
      (whole : buffer.length = stat.size) :
      Renders system api world view path stat buffer closed

theorem serve_of_renders {content : Bytes} {before : World σ}
    (renders : Renders system api world view path stat content before) (fd : Int)
    (response : HttpResponse) :
    serve system api world fd view response path stat = fun fuel =>
      (templatize view.parameters content fuel).map fun body =>
        respond system before fd { response with body := body } := by
  funext fuel
  cases renders with
  | cached entry small html =>
      simp only [serve, entry, small, html, and_self, if_true]
  | read entry small html opens valid reads closes whole =>
      have smallSize : (stat.size : Int) < (bufferLimit : Int) := by exact_mod_cast small
      simp only [serve, entry, smallSize, html, and_self, if_true,
        HttpApi.respondParameterizedView, opens, Int.not_lt.mpr valid, if_false, reads, closes,
        Bool.not_true, Bool.false_eq_true, whole, ne_eq, not_true_eq_false]

/-- The body that is sent is the template with every placeholder replaced by
its value, or by nothing, exactly when this page does not have both delimiters
and the placeholders without a value are removable. -/
theorem served_eq_shown_iff {first : Bytes} {holes : List Hole} {before : World σ}
    (renders : Renders system api world view path stat (first ++ written holes) before)
    (distinct : (KeyedList.keys view.parameters).Nodup)
    (plain : ∀ name ∈ KeyedList.keys view.parameters, Plain name)
    (short : (substituted view.parameters (first ++ written holes)).length < 2 ^ 63) {fd : Int}
    {response : HttpResponse} {result : Int} {after : World σ}
    (served : Converges (serve system api world fd view response path stat) (result, after)) :
    ∃ sent failed, after.events = before.events ++ [.responded sent failed] ∧
      (sent.body = first ++ shown (KeyedList.get? view.parameters) holes ↔
        ¬ Delimited (first ++ shown (KeyedList.get? view.parameters) holes) ∧
          Removable (KeyedList.get? view.parameters) first holes) := by
  rw [serve_of_renders renders, converges_map] at served
  obtain ⟨page, converges, equal⟩ := served
  obtain ⟨rfl, rfl⟩ := Prod.mk.inj equal
  refine ⟨_, _, rfl, ?_⟩
  rw [HttpApi.body_withContentLength]
  exact rendered_eq_shown_iff distinct plain short converges

/-- `hi \x7b\x7b\x7bname\x7d\x7d\x7d!` is the text `hi ` and this. -/
def greeting : List Hole :=
  [⟨bytes "name", ⟨by decide, by decide⟩, bytes "!"⟩]

/-- A page read from a disk that holds nothing else. -/
theorem renders_onlyFile {content : Bytes} (small : content.length < bufferLimit)
    (parameters : List (Bytes × Bytes)) :
    Renders (HttpApi.onlyFile content) ⟨bytes "public", [], 100, false, [], []⟩ ⟨[], []⟩
      ⟨bytes "a.html", bytes "GET", parameters, 0⟩ (bytes "public/a.html")
      ⟨.regular, content.length, 0⟩ content
      ⟨content.drop bufferLimit,
        [.opened (bytes "a.html") 3, .read 3 (some content), .closed 3]⟩ := by
  have whole : content.take bufferLimit = content := List.take_of_length_le (Nat.le_of_lt small)
  have reads : World.read (HttpApi.onlyFile content) ⟨content, [.opened (bytes "a.html") 3]⟩ 3 =
      (some content, ⟨content.drop bufferLimit,
        [.opened (bytes "a.html") 3, .read 3 (some content)]⟩) := by
    simp only [World.read, HttpApi.onlyFile, whole]
    rfl
  have valid : (0 : Int) ≤ 3 := by decide
  exact .read rfl small (by decide) rfl valid reads rfl rfl

theorem served_eq_shown_iff_greeting :
    ∃ sent failed,
      (respond (HttpApi.onlyFile (bytes "hi " ++ written greeting))
        ⟨[], [.opened (bytes "a.html") 3, .read 3 (some (bytes "hi " ++ written greeting)),
          .closed 3]⟩ 5 { HttpResponse.default with body := bytes "hi you!" }).2.events =
        [.opened (bytes "a.html") 3, .read 3 (some (bytes "hi " ++ written greeting)),
          .closed 3] ++ [.responded sent failed] ∧
      (sent.body = bytes "hi " ++ shown (KeyedList.get? [(bytes "name", bytes "you")]) greeting ↔
        ¬ Delimited (bytes "hi " ++ shown (KeyedList.get? [(bytes "name", bytes "you")]) greeting) ∧
          Removable (KeyedList.get? [(bytes "name", bytes "you")]) (bytes "hi ") greeting) := by
  have small : (bytes "hi " ++ written greeting).length < bufferLimit := by decide
  have renders := renders_onlyFile small [(bytes "name", bytes "you")]
  have rendered : templatize [(bytes "name", bytes "you")] (bytes "hi " ++ written greeting) 5 =
      some (bytes "hi you!") := by
    decide +kernel
  have served := serve_of_renders renders 5 .default
  have plain : ∀ name ∈ [bytes "name"], Plain name := by
    intro name member
    rw [List.mem_singleton.mp member]
    exact ⟨by decide, by decide⟩
  apply served_eq_shown_iff renders (by decide) plain (by decide +kernel)
  rw [served]
  refine ⟨5, ?_⟩
  dsimp only
  rw [rendered]
  rfl

/-- A value is taken for a placeholder without a value. -/
theorem not_served_eq_shown :
    ¬ ∀ (system : System Bytes) (api : HttpApi Bytes) (world before after : World Bytes)
      (view : View) (path : Bytes) (stat : Stat) (first : Bytes) (holes : List Hole) (fd : Int)
      (response sent : HttpResponse) (result : Int) (failed : Bool),
      Plain first → (∀ hole ∈ holes, Plain hole.behind) →
      Renders system api world view path stat (first ++ written holes) before →
      (KeyedList.keys view.parameters).Nodup →
      (∀ name ∈ KeyedList.keys view.parameters, Plain name) →
      Converges (serve system api world fd view response path stat) (result, after) →
      after.events = before.events ++ [.responded sent failed] →
      sent.body = first ++ shown (KeyedList.get? view.parameters) holes := by
  intro simultaneous
  let holes : List Hole := [⟨bytes "a", ⟨by decide, by decide⟩, []⟩]
  let parameters := [(bytes "a", placeholder (bytes "b"))]
  have small : (written holes).length < bufferLimit := by decide
  have renders := renders_onlyFile small parameters
  have rendered : templatize parameters (written holes) 5 = some [] := by
    decide +kernel
  have plain : ∀ name ∈ [bytes "a"], Plain name := by
    intro name member
    rw [List.mem_singleton.mp member]
    exact ⟨by decide, by decide⟩
  have noText : ∀ hole ∈ holes, Plain hole.behind := by
    intro hole member
    rw [List.mem_singleton.mp member]
    exact ⟨by decide, by decide⟩
  have served : Converges (serve _ _ _ 5 _ HttpResponse.default _ _) _ :=
    ⟨5, (congrFun (serve_of_renders renders 5 .default) 5).trans
      (congrArg (Option.map _) rendered)⟩
  have same := simultaneous _ _ _ _ _ _ _ _ [] holes 5 _ _ _ _ ⟨by decide, by decide⟩ noText
    renders (by decide) plain served rfl
  revert same
  decide

end Serving

end Template

end Libjaypea
