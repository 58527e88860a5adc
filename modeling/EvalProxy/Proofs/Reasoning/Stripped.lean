/-
# Stripped completions

Stripping a response touches the messages with an end mark in their text and nothing else. In such a
message the text makes way for its visible part, and the reasoning is put beside it if it is to be
kept; every other member, choice and element stays what and where it is. A response without such a
message keeps every octet of its body.

Main definitions: `Marked`, `HasMarked`, `Parted`, `Strips`.
Main statements: `strips_getD_stripChoice?`, `strips_only_marked_messages`.
-/
import EvalProxy.Interceptor
import EvalProxy.Proofs.Json.Members
import EvalProxy.Proofs.Reasoning.Split
import Mathlib.Data.List.Forall2
namespace EvalProxy.Reasoning

open Json (SameBut)

/-! ## Marked messages -/

/-- A choice has a message whose content is a text with an end mark in it. -/
structure Marked (marks : Settings) (choice message : Json) (text : String) : Prop where
  has_message : choice.member? "message" = some message
  has_text : message.member? "content" = some (.text text)
  has_mark : marks.endMark.toList <:+: text.toList

/-- A completion has a choice with such a message. -/
def HasMarked (marks : Settings) (body : Json) : Prop :=
  ∃ choices choice message text, body.member? "choices" = some (.array choices) ∧
    choice ∈ choices ∧ Marked marks choice message text

/-- The keys at which a marked message changes. -/
def Settings.touched (marks : Settings) : List String :=
  if marks.keep then ["content", "reasoning_content"] else ["content"]

/-- A message and what it becomes when its text is split: the content is what is visible, the
reasoning stands beside it if it is to be kept, and every other member is as before. -/
structure Parted (marks : Settings) (text : String) (message message' : Json) : Prop where
  others : SameBut marks.touched message message'
  content : message'.member? "content" = some (.text (split marks text).content)
  reasoning : marks.keep = true → ∃ reasoning, (split marks text).reasoning = some reasoning ∧
    message'.member? "reasoning_content" = some (.text reasoning)

/-- A choice and what it becomes: one without a marked message stays as it is, and in any other the
message is parted and every other member is as before. -/
inductive Strips (marks : Settings) : Json → Json → Prop
  | unmarked {choice : Json} (h : ∀ message text, ¬ Marked marks choice message text) :
      Strips marks choice choice
  | marked {choice choice' message message' : Json} {text : String}
      (h : Marked marks choice message text) (others : SameBut ["message"] choice choice')
      (has_message : choice'.member? "message" = some message')
      (parted : Parted marks text message message') : Strips marks choice choice'

section

variable {marks : Settings} {body choice message : Json} {text : String}

/-! ## Messages -/

/-- Only a text with an end mark in it is split. -/
theorem exists_text_of_stripMessage? {message' : Json}
    (h : stripMessage? marks message = some message') :
    ∃ text, message.member? "content" = some (.text text) ∧
      marks.endMark.toList <:+: text.toList := by
  simp only [stripMessage?, bind, Option.bind_eq_some_iff] at h
  obtain ⟨content, hcontent, text, htext, reasoning, hreasoning, -⟩ := h
  cases content with
  | text t =>
    obtain rfl : t = text := Option.some.inj htext
    refine ⟨t, hcontent, ?_⟩
    by_contra hmark
    rw [reasoning_split_eq_none_iff.2 hmark] at hreasoning
    cases hreasoning
  | _ => cases htext

/-- A message with an end mark in its text is parted. -/
theorem exists_parted (htext : message.member? "content" = some (.text text))
    (hmark : marks.endMark.toList <:+: text.toList) :
    ∃ message', stripMessage? marks message = some message' ∧
      Parted marks text message message' := by
  obtain ⟨reasoning, hreasoning⟩ : ∃ reasoning, (split marks text).reasoning = some reasoning := by
    rw [← Option.ne_none_iff_exists', Ne, reasoning_split_eq_none_iff, not_not]
    exact hmark
  -- the content is put in first, the reasoning beside it afterwards
  have hcontent := Json.member?_withMember message "content" (.text (split marks text).content)
  have hothers := Json.sameBut_withMember htext "content" (.text (split marks text).content)
  have hstrip : stripMessage? marks message
      = let stripped := message.withMember "content" (.text (split marks text).content)
        if marks.keep then some (stripped.withMember "reasoning_content" (.text reasoning))
        else some stripped := by
    simp [stripMessage?, htext, Json.text?, hreasoning]
  rw [hstrip]
  generalize message.withMember "content" (.text (split marks text).content) = stripped
    at hcontent hothers
  by_cases hkeep : marks.keep = true
  · have htouched : marks.touched = ["content", "reasoning_content"] := if_pos hkeep
    have hbeside := Json.sameBut_withMember hcontent "reasoning_content" (.text reasoning)
    refine ⟨_, if_pos hkeep, ?_, ?_, fun _ => ⟨reasoning, hreasoning, ?_⟩⟩
    · rw [htouched]
      exact (hothers.mono (by simp)).trans (hbeside.mono (by simp))
    · rw [hbeside.member?_eq (by simp)]
      exact hcontent
    · exact Json.member?_withMember stripped "reasoning_content" _
  · have htouched : marks.touched = ["content"] := if_neg hkeep
    refine ⟨_, if_neg hkeep, ?_, hcontent, fun h => absurd h hkeep⟩
    rw [htouched]
    exact hothers

/-! ## Choices -/

/-- A choice is rewritten only if its message holds marked text. -/
theorem exists_marked_of_stripChoice? {choice' : Json}
    (h : stripChoice? marks choice = some choice') :
    ∃ message text, Marked marks choice message text := by
  simp only [stripChoice?, bind, Option.bind_eq_some_iff] at h
  obtain ⟨message, hmessage, message', hstrip, -⟩ := h
  obtain ⟨text, htext, hmark⟩ := exists_text_of_stripMessage? hstrip
  exact ⟨message, text, hmessage, htext, hmark⟩

/-- In a choice with a marked message only that message changes. -/
theorem Marked.exists_strips (h : Marked marks choice message text) :
    ∃ choice', stripChoice? marks choice = some choice' ∧ Strips marks choice choice' := by
  obtain ⟨message', hstrip, hparted⟩ := exists_parted h.has_text h.has_mark
  refine ⟨choice.withMember "message" message', ?_, ?_⟩
  · simp [stripChoice?, h.has_message, hstrip]
  · exact .marked h (Json.sameBut_withMember h.has_message _ _)
      (Json.member?_withMember choice _ _) hparted

/-- **Every choice** becomes what it is to become. -/
theorem strips_getD_stripChoice? (marks : Settings) (choice : Json) :
    Strips marks choice ((stripChoice? marks choice).getD choice) := by
  cases hstrip : stripChoice? marks choice with
  | none =>
    refine .unmarked ?_
    intro message text h
    obtain ⟨choice', hsome, -⟩ := h.exists_strips
    rw [hstrip] at hsome
    cases hsome
  | some choice' =>
    obtain ⟨message, text, h⟩ := exists_marked_of_stripChoice? hstrip
    obtain ⟨choice'', hsome, hstrips⟩ := h.exists_strips
    rw [hstrip] at hsome
    cases hsome
    exact hstrips

/-! ## Completions -/

/-- Some choice is rewritten exactly if the message of one holds marked text. -/
theorem any_isSome_stripChoice?_iff {choices : List Json} :
    (choices.any fun c => (stripChoice? marks c).isSome) = true ↔
      ∃ choice ∈ choices, ∃ message text, Marked marks choice message text := by
  rw [List.any_eq_true]
  constructor
  · rintro ⟨choice, hmem, hsome⟩
    obtain ⟨choice', hstrip⟩ := Option.isSome_iff_exists.1 hsome
    exact ⟨choice, hmem, exists_marked_of_stripChoice? hstrip⟩
  · rintro ⟨choice, hmem, message, text, h⟩
    obtain ⟨choice', hstrip, -⟩ := h.exists_strips
    exact ⟨choice, hmem, Option.isSome_iff_exists.2 ⟨choice', hstrip⟩⟩

/-- A completion without a marked message is not stripped. -/
theorem stripBody?_of_not_hasMarked (h : ¬ HasMarked marks body) :
    stripBody? marks body = none := by
  rw [Option.eq_none_iff_forall_ne_some]
  intro body' hstrip
  simp only [stripBody?, bind, Option.bind_eq_some_iff] at hstrip
  obtain ⟨member, hmember, choices, hchoices, hstrip⟩ := hstrip
  cases member with
  | array items =>
    obtain rfl : items = choices := Option.some.inj hchoices
    split at hstrip
    · rename_i hany
      obtain ⟨choice, hmem, message, text, hmarked⟩ := any_isSome_stripChoice?_iff.1 hany
      exact h ⟨items, choice, message, text, hmember, hmem, hmarked⟩
    · cases hstrip
  | _ => cases hchoices

/-- In a completion with a marked message only the choices change. -/
theorem HasMarked.exists_stripBody? (h : HasMarked marks body) :
    ∃ body' choices choices', stripBody? marks body = some body' ∧
      SameBut ["choices"] body body' ∧ body.member? "choices" = some (.array choices) ∧
      body'.member? "choices" = some (.array choices') ∧
      List.Forall₂ (Strips marks) choices choices' := by
  obtain ⟨choices, choice, message, text, hmember, hmem, hmarked⟩ := h
  have hany := any_isSome_stripChoice?_iff.2 ⟨choice, hmem, message, text, hmarked⟩
  refine ⟨_, choices, choices.map fun c => (stripChoice? marks c).getD c, ?_,
    Json.sameBut_withMember hmember _ _, hmember, Json.member?_withMember body _ _, ?_⟩
  · rw [stripBody?, hmember]
    exact if_pos hany
  · rw [List.forall₂_map_right_iff, List.forall₂_same]
    intro c _
    exact strips_getD_stripChoice? marks c

end

/-- **Stripping touches only what it must.** The status, headers and context of a response stay, and
so does its body, octet for octet, if it is no JSON or no choice in it has a message with an end mark
in its text. Otherwise the body is the text of the value with the choices stripped, each in its
place. -/
theorem strips_only_marked_messages (marks : Settings) (r : Response) (w : World) :
    ∃ r', Interceptor.onResponse (.reasoning marks) r w = (.ok r', .reasoning marks, w) ∧
      r'.status = r.status ∧ r'.headers = r.headers ∧ r'.context = r.context ∧
      (r.json? = none → r'.body = r.body) ∧
      ∀ value, r.json? = some value →
        (¬ HasMarked marks value → r'.body = r.body) ∧
        (HasMarked marks value → ∃ value' choices choices',
          r'.body = Text.encode value'.compact ∧ SameBut ["choices"] value value' ∧
          value.member? "choices" = some (.array choices) ∧
          value'.member? "choices" = some (.array choices') ∧
          List.Forall₂ (Strips marks) choices choices') := by
  refine ⟨onResponse marks r, rfl, ?_⟩
  rw [onResponse]
  cases hjson : r.json? with
  | none => exact ⟨rfl, rfl, rfl, fun _ => rfl, nofun⟩
  | some value =>
    rw [Option.bind_some]
    by_cases hmarked : HasMarked marks value
    · obtain ⟨value', choices, choices', hstrip, hothers, hold, hnew, hstrips⟩ :=
        hmarked.exists_stripBody?
      rw [hstrip]
      refine ⟨rfl, rfl, rfl, nofun, ?_⟩
      rintro _ ⟨⟩
      refine ⟨fun h => absurd hmarked h, fun _ => ?_⟩
      exact ⟨value', choices, choices', rfl, hothers, hold, hnew, hstrips⟩
    · rw [stripBody?_of_not_hasMarked hmarked]
      refine ⟨rfl, rfl, rfl, nofun, ?_⟩
      rintro _ ⟨⟩
      exact ⟨fun _ => rfl, fun h => absurd h hmarked⟩

end EvalProxy.Reasoning
