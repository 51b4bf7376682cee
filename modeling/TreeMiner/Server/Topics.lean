import TreeMiner.Server.Broker

/-! MQTT topic filters: what a filter matches level by level, and that the broker's loop with
its two indices finds it. -/

namespace TreeMiner.Server

abbrev Level := List Char

/-- `split("/")`: the levels of a topic, empty ones included. -/
def levels (text : String) : List Level := text.toList.splitOn '/'

/-- The loop of `mqtt_topic_matches`, and the tests behind it. -/
def topicLoop (patternParts topicParts : List Level) (pi ti : Nat) : Bool :=
  if h : pi < patternParts.length ∧ ti < topicParts.length then
    if patternParts.get ⟨pi, h.1⟩ = ['#'] then true
    else if patternParts.get ⟨pi, h.1⟩ = ['+'] then
      topicLoop patternParts topicParts (pi + 1) (ti + 1)
    else if patternParts.get ⟨pi, h.1⟩ ≠ topicParts.get ⟨ti, h.2⟩ then false
    else topicLoop patternParts topicParts (pi + 1) (ti + 1)
  else if patternParts[pi]? = some ['#'] then true
  else decide (pi = patternParts.length ∧ ti = topicParts.length)
termination_by patternParts.length - pi

/-- `mqtt_topic_matches`, index by index. -/
def topicMatchesIndexed (pattern topic : String) : Bool :=
  topicLoop (levels pattern) (levels topic) 0 0

/-! ## The law -/

/-- MQTT 3.1.1 without the rule for topics that start with `$`: a `+` is one level, a `#` at
the end any number of them, none included, and any other level is itself. -/
inductive TopicMatches : List Level → List Level → Prop
  | done : TopicMatches [] []
  | rest (topics : List Level) : TopicMatches [['#']] topics
  | any {filters topics : List Level} (topic : Level) (h : TopicMatches filters topics) :
      TopicMatches (['+'] :: filters) (topic :: topics)
  | same {filters topics : List Level} {level : Level} (hmany : level ≠ ['#'])
      (hone : level ≠ ['+']) (h : TopicMatches filters topics) :
      TopicMatches (level :: filters) (level :: topics)

/-- A `+` only as a whole level, a `#` only as the whole last level. -/
def ValidLevels (filters : List Level) : Prop :=
  ∀ before level after, filters = before ++ level :: after →
    ('+' ∈ level → level = ['+']) ∧ ('#' ∈ level → level = ['#'] ∧ after = [])

def ValidFilter (filter : String) : Prop := ValidLevels (levels filter)

theorem validLevels_nil : ValidLevels [] := by
  intro before level after heq
  cases before <;> cases heq

theorem ValidLevels.cons {level : Level} {filters : List Level} (h : ValidLevels filters)
    (hone : '+' ∈ level → level = ['+']) (hmany : '#' ∈ level → level = ['#'] ∧ filters = []) :
    ValidLevels (level :: filters) := by
  intro before level' after heq
  cases before with
  | nil =>
    obtain ⟨rfl, rfl⟩ := List.cons.inj heq
    exact ⟨hone, hmany⟩
  | cons first before =>
    obtain ⟨-, rfl⟩ := List.cons.inj heq
    exact h before level' after rfl

theorem ValidLevels.tail {level : Level} {filters : List Level}
    (h : ValidLevels (level :: filters)) : ValidLevels filters := by
  intro before level' after heq
  exact h (level :: before) level' after (by rw [heq, List.cons_append])

theorem ValidLevels.last {filters : List Level} (h : ValidLevels (['#'] :: filters)) :
    filters = [] :=
  ((h [] ['#'] filters rfl).2 (List.mem_singleton_self _)).2

theorem partsMatch_iff {filters topics : List Level} (h : ValidLevels filters) :
    partsMatch filters topics = true ↔ TopicMatches filters topics := by
  induction filters generalizing topics with
  | nil =>
    cases topics with
    | nil => exact iff_of_true rfl .done
    | cons topic topics => exact iff_of_false Bool.false_ne_true nofun
  | cons level filters ih =>
    by_cases hmany : level = ['#']
    · subst hmany
      obtain rfl := h.last
      refine iff_of_true ?_ (.rest topics)
      cases topics <;> rfl
    · cases topics with
      | nil =>
        refine iff_of_false ?_ ?_
        · simpa [partsMatch] using hmany
        · intro hmatch
          cases hmatch
          exact hmany rfl
      | cons topic topics =>
        rw [partsMatch, if_neg hmany]
        split_ifs with hone hother
        · subst hone
          rw [ih h.tail]
          refine ⟨.any topic, fun hmatch => ?_⟩
          cases hmatch with
          | any _ hmatch => exact hmatch
          | same _ hne _ => exact absurd rfl hne
        · refine iff_of_false not_false fun hmatch => ?_
          cases hmatch with
          | rest => exact hmany rfl
          | any => exact hone rfl
          | same => exact hother rfl
        · obtain rfl := not_not.1 hother
          rw [ih h.tail]
          refine ⟨.same hmany hone, fun hmatch => ?_⟩
          cases hmatch with
          | any _ hmatch => exact hmatch
          | same _ _ hmatch => exact hmatch
          | rest => exact absurd rfl hmany

/-- From two positions on, the loop does what is done with the levels that are left. -/
theorem topicLoop_eq (patternParts topicParts : List Level) {pi ti : Nat}
    (hpi : pi ≤ patternParts.length) (hti : ti ≤ topicParts.length) :
    topicLoop patternParts topicParts pi ti =
      partsMatch (patternParts.drop pi) (topicParts.drop ti) := by
  fun_induction topicLoop patternParts topicParts pi ti with
  | case1 pi ti h hmany =>
    rw [List.drop_eq_getElem_cons h.1, List.drop_eq_getElem_cons h.2, partsMatch]
    exact (if_pos hmany).symm
  | case2 pi ti h hmany hone ih =>
    rw [ih h.1 h.2, List.drop_eq_getElem_cons h.1, List.drop_eq_getElem_cons h.2, partsMatch]
    exact ((if_neg hmany).trans (if_pos hone)).symm
  | case3 pi ti h hmany hone hother =>
    rw [List.drop_eq_getElem_cons h.1, List.drop_eq_getElem_cons h.2, partsMatch]
    exact ((if_neg hmany).trans ((if_neg hone).trans (if_pos hother))).symm
  | case4 pi ti h hmany hone hsame ih =>
    rw [ih h.1 h.2, List.drop_eq_getElem_cons h.1, List.drop_eq_getElem_cons h.2, partsMatch]
    exact ((if_neg hmany).trans ((if_neg hone).trans (if_neg hsame))).symm
  | case5 pi ti h hmany =>
    obtain ⟨hlt, hget⟩ := List.getElem?_eq_some_iff.1 hmany
    have hend : ti = topicParts.length := by omega
    rw [List.drop_eq_getElem_cons hlt, hget, hend, List.drop_length]
    rfl
  | case6 pi ti h hmany =>
    by_cases hlt : pi < patternParts.length
    · have hend : ti = topicParts.length := by omega
      rw [List.getElem?_eq_getElem hlt, Option.some_inj] at hmany
      rw [List.drop_eq_getElem_cons hlt, hend, List.drop_length, partsMatch,
        decide_eq_decide]
      exact iff_of_false (fun hboth => Nat.ne_of_lt hlt hboth.1) hmany
    · have hfull : pi = patternParts.length := by omega
      rw [hfull, List.drop_length, partsMatch]
      rw [Bool.eq_iff_iff, decide_eq_true_eq, List.isEmpty_iff, List.drop_eq_nil_iff]
      omega

theorem topicMatchesIndexed_eq (pattern topic : String) :
    topicMatchesIndexed pattern topic = mqttTopicMatches pattern topic := by
  unfold topicMatchesIndexed
  rw [topicLoop_eq _ _ (Nat.zero_le _) (Nat.zero_le _)]
  rfl

/-- For a valid filter the loop finds exactly the topics that match it level by level. -/
theorem mqttTopicMatches_iff {pattern : String} (h : ValidFilter pattern) (topic : String) :
    topicMatchesIndexed pattern topic = mqttTopicMatches pattern topic ∧
      (topicMatchesIndexed pattern topic = true ↔
        TopicMatches (levels pattern) (levels topic)) := by
  have heq := topicMatchesIndexed_eq pattern topic
  refine ⟨heq, ?_⟩
  rw [heq]
  exact partsMatch_iff h

/-- The parent level is matched, an empty level is one level. -/
theorem mqttTopicMatches_iff_workers :
    TopicMatches (levels "xenminer/+/#") (levels "xenminer/") ∧
      ¬ TopicMatches (levels "xenminer/+/#") (levels "xenminer") := by
  have hvalid : ValidFilter "xenminer/+/#" := by
    have hlevels : levels "xenminer/+/#" = ["xenminer".toList, ['+'], ['#']] := by decide
    unfold ValidFilter
    rw [hlevels]
    refine ((validLevels_nil.cons ?_ ?_).cons ?_ ?_).cons ?_ ?_ <;> decide
  rw [← (mqttTopicMatches_iff hvalid "xenminer/").2, ← (mqttTopicMatches_iff hvalid "xenminer").2,
    topicMatchesIndexed_eq, topicMatchesIndexed_eq]
  decide

end TreeMiner.Server
