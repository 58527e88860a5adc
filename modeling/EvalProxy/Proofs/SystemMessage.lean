/-
# One system message

A conversation ends up with exactly one system message, at its head: the configured text, alone or
with the texts of the system messages that were there. All other messages and all other members of
the request stay as they are. Only a content that is a text counts, though: what a system message
says in parts is dropped with it, whatever the strategy.

Main definitions: `IsSystem`, `systemTexts`, `Settings.lines`, `carried`, `InOrder`.
Main statements: `contentFor_eq`, `puts_one_system_message`, `keeps_instructions_in_texts`,
`instructions_in_parts_vanish`.
-/
import EvalProxy.Proofs.Json.Members
import EvalProxy.SystemMessage
import Mathlib.Data.List.Basic
namespace EvalProxy.SystemMessage

open Json (SameBut)

/-! ## System messages -/

/-- The role of a message is that of the system. -/
def IsSystem (message : Json) : Prop := message.member? "role" = some (.text "system")

theorem isSystem_iff {message : Json} : isSystem message = true ↔ IsSystem message := by
  rw [isSystem, IsSystem]
  split
  · rename_i role hrole
    rw [hrole, beq_iff_eq, Option.some.injEq, Json.text.injEq]
  · rename_i hrole
    exact iff_of_false Bool.false_ne_true (hrole "system")

instance : DecidablePred IsSystem := fun _ => decidable_of_iff _ isSystem_iff

theorem decide_isSystem (message : Json) : decide (IsSystem message) = isSystem message := by
  rw [Bool.eq_iff_iff, decide_eq_true_iff, isSystem_iff]

/-- The texts that are contents of system messages, in order. -/
def systemTexts (messages : List Json) : List String :=
  (messages.filter fun m => IsSystem m).filterMap content?

/-- A message with the role of the system, a content and nothing else. -/
def systemMessage (content : String) : Json :=
  .object [("content", .text content), ("role", .text "system")]

/-! ## The content -/

/-- The lines that a system message is made of: the configured text, and before or after it the texts
that are kept. -/
def Settings.lines (s : Settings) (texts : List String) : List String :=
  match s.strategy with
  | .replace => [s.text]
  | .prepend => s.text :: texts
  | .append => texts ++ [s.text]

section

variable (s : Settings) (messages : List Json)

/-- The texts of system messages are their contents that are texts. -/
theorem systemTexts_eq : systemTexts messages = (messages.filter isSystem).filterMap content? := by
  rw [systemTexts, List.filter_congr fun m _ => decide_isSystem m]

/-- Where no text was there, the configured one stands alone. -/
theorem contentFor_of_eq_nil (h : systemTexts messages = []) : s.contentFor messages = s.text := by
  rw [Settings.contentFor, ← systemTexts_eq, h]

/-- The texts that were there are combined with the configured one. -/
theorem contentFor_of_ne_nil (h : systemTexts messages ≠ []) :
    s.contentFor messages = s.combine ("\n".intercalate (systemTexts messages)) := by
  rw [Settings.contentFor, ← systemTexts_eq]
  split
  · rename_i hnil
    exact absurd hnil h
  · rfl

/-- **The content** is made of the lines, one below the other. -/
theorem contentFor_eq :
    s.contentFor messages = "\n".intercalate (s.lines (systemTexts messages)) := by
  by_cases hkept : systemTexts messages = []
  · rw [contentFor_of_eq_nil s messages hkept, hkept, Settings.lines]
    cases s.strategy <;> exact String.intercalate_singleton.symm
  · rw [contentFor_of_ne_nil s messages hkept, Settings.combine, Settings.lines]
    cases s.strategy with
    | replace => exact String.intercalate_singleton.symm
    | prepend => exact (String.intercalate_cons_of_ne_nil hkept).symm
    | append =>
      simp only
      rw [String.intercalate_append_of_ne_nil hkept (by simp), String.intercalate_singleton]

/-! ## The conversation -/

/-- The new system message comes first, and then the others in their order. -/
theorem applyMessages_eq : s.applyMessages messages
    = systemMessage (s.contentFor messages) :: messages.filter fun m => ¬ IsSystem m := by
  have hothers : (messages.filter fun m => ¬ IsSystem m) = messages.filter fun m => !isSystem m := by
    apply List.filter_congr
    intro m _
    rw [decide_not, decide_isSystem]
  have hhead (content : String) :
      Json.ofMembers [("role", .text "system"), ("content", .text content)]
        = systemMessage content := by
    have hlt : "content" < "role" := by decide
    simp [Json.ofMembers, Assoc.ofList, Assoc.insert, hlt, systemMessage]
  rw [Settings.applyMessages, hhead, hothers]

variable {s messages} {body : Json}

/-- A body with messages has them replaced, and nothing else. -/
theorem apply_of_messages (h : body.member? "messages" = some (.array messages)) :
    s.apply body = body.withMember "messages" (.array (s.applyMessages messages)) := by
  rw [Settings.apply, h]

/-- What the conversation becomes. -/
theorem member?_apply (h : body.member? "messages" = some (.array messages)) :
    (s.apply body).member? "messages" = some (.array (systemMessage (s.contentFor messages)
      :: messages.filter fun m => ¬ IsSystem m)) := by
  rw [apply_of_messages h, Json.member?_withMember, applyMessages_eq]

/-- A body without messages stays as it is. -/
theorem apply_of_no_messages (h : ∀ messages, body.member? "messages" ≠ some (.array messages)) :
    s.apply body = body := by
  rw [Settings.apply]
  split
  · rename_i messages hmessages
    exact absurd hmessages (h messages)
  · rfl

/-- A configured text that replaces all others is there once and for all. -/
theorem applyMessages_applyMessages (hs : s.strategy = .replace) :
    s.applyMessages (s.applyMessages messages) = s.applyMessages messages := by
  have hcontent (ms : List Json) : s.contentFor ms = s.text := by
    rw [contentFor_eq, Settings.lines, hs]
    exact String.intercalate_singleton
  have hhead : IsSystem (systemMessage s.text) := rfl
  rw [applyMessages_eq s (s.applyMessages messages), applyMessages_eq s messages, hcontent,
    hcontent, List.filter_cons_of_neg (by simp [hhead]), List.filter_filter]
  simp only [Bool.and_self]

/-- To replace the system message again changes nothing. -/
theorem apply_apply (hs : s.strategy = .replace) : s.apply (s.apply body) = s.apply body := by
  by_cases h : ∃ messages, body.member? "messages" = some (.array messages)
  · obtain ⟨messages, h⟩ := h
    have hnew : (s.apply body).member? "messages" = some (.array (s.applyMessages messages)) := by
      rw [apply_of_messages h, Json.member?_withMember]
    rw [apply_of_messages hnew, applyMessages_applyMessages hs, apply_of_messages h,
      Json.withMember_withMember]
  · have hnone := apply_of_no_messages (s := s) (not_exists.1 h)
    rw [hnone, hnone]

end

/-- **Exactly one system message, everything else kept.** A body without a conversation stays as it
is. In any other the conversation becomes one system message and the messages of other roles in
their order, and every other member stays. The content is the configured text if no system message
had a text for its content, and else the texts that there were are combined with it as the strategy
says. To replace them twice is to replace them once. -/
theorem puts_one_system_message (s : Settings) (body : Json) :
    ((∀ messages, body.member? "messages" ≠ some (.array messages)) → s.apply body = body) ∧
    (∀ messages, body.member? "messages" = some (.array messages) →
      SameBut ["messages"] body (s.apply body) ∧
      ∃ content,
        (s.apply body).member? "messages" = some (.array
          (systemMessage content :: messages.filter fun m => ¬ IsSystem m)) ∧
        (systemTexts messages = [] → content = s.text) ∧
        (systemTexts messages ≠ [] → content =
          match s.strategy with
          | .replace => s.text
          | .prepend => s.text ++ "\n" ++ "\n".intercalate (systemTexts messages)
          | .append => "\n".intercalate (systemTexts messages) ++ "\n" ++ s.text)) ∧
    (s.strategy = .replace → s.apply (s.apply body) = s.apply body) := by
  refine ⟨apply_of_no_messages, fun messages h => ⟨?_, ?_⟩, apply_apply⟩
  · rw [apply_of_messages h]
    exact Json.sameBut_withMember h "messages" _
  · refine ⟨s.contentFor messages, member?_apply h, fun hnone => ?_, fun hsome => ?_⟩
    · exact contentFor_of_eq_nil s messages hnone
    · rw [contentFor_of_ne_nil s messages hsome]
      rfl

/-! ## Instructions -/

/-- The texts that a content carries: it is a text itself, or it has parts with texts. -/
def carried : Json → List String
  | .text t => [t]
  | .array parts => parts.filterMap fun part => (part.member? "text").bind Json.text?
  | _ => []

/-- The texts that the content of a message carries. -/
def carriedBy (message : Json) : List String :=
  ((message.member? "content").map carried).getD []

/-- Texts occur in a text one after the other. -/
inductive InOrder : List String → String → Prop
  | nil (s : String) : InOrder [] s
  | cons (before t : String) {ts : List String} {after : String} (h : InOrder ts after) :
      InOrder (t :: ts) (before ++ t ++ after)

/-- Texts that stand in order in a text do so behind more text. -/
theorem InOrder.append_left {ts : List String} {s : String} (h : InOrder ts s) (before : String) :
    InOrder ts (before ++ s) := by
  cases h with
  | nil => exact .nil _
  | cons before' t h =>
    rw [← String.append_assoc, ← String.append_assoc]
    exact .cons (before ++ before') t h

/-- Fewer texts occur as well. -/
theorem InOrder.sublist {ts ts' : List String} {s : String} (h : InOrder ts s)
    (hsub : ts'.Sublist ts) : InOrder ts' s := by
  induction h generalizing ts' with
  | nil s =>
    rw [List.sublist_nil.1 hsub]
    exact .nil s
  | cons before t h ih =>
    cases hsub with
    | cons _ hsub => exact (ih hsub).append_left (before ++ t)
    | cons_cons _ hsub => exact .cons before t (ih hsub)

/-- Texts that are put together occur in what they make up. -/
theorem inOrder_intercalate (separator : String) (ts : List String) :
    InOrder ts (separator.intercalate ts) := by
  induction ts with
  | nil => exact .nil _
  | cons t ts ih =>
    cases ts with
    | nil =>
      rw [String.intercalate_singleton]
      simpa using InOrder.cons "" t (.nil "")
    | cons u ts =>
      rw [String.intercalate_cons_cons, String.append_assoc]
      simpa using InOrder.cons "" t (ih.append_left separator)

section

variable {s : Settings} {body : Json} {messages : List Json}

/-- Texts are kept unless they are to be replaced. -/
theorem inOrder_contentFor (hs : s.strategy ≠ .replace) (messages : List Json) :
    InOrder (systemTexts messages) (s.contentFor messages) := by
  rw [contentFor_eq]
  apply (inOrder_intercalate "\n" _).sublist
  rw [Settings.lines]
  cases hstrategy : s.strategy with
  | replace => exact absurd hstrategy hs
  | prepend => exact List.sublist_cons_self _ _
  | append => exact List.sublist_append_left _ _

/-- Where no other form of content carries a text, the texts of the contents are all there are. -/
theorem flatMap_carriedBy
    (h : ∀ m ∈ messages, IsSystem m → content? m = none → carriedBy m = []) :
    (messages.filter fun m => IsSystem m).flatMap carriedBy = systemTexts messages := by
  rw [systemTexts, List.filterMap_eq_flatMap_toList]
  apply List.flatMap_congr
  intro m hm
  obtain ⟨hmem, hsystem⟩ := List.mem_filter.1 hm
  cases htext : content? m with
  | none => exact h m hmem (of_decide_eq_true hsystem) htext
  | some text =>
    obtain ⟨content, hcontent, htext⟩ := Option.bind_eq_some_iff.1 htext
    cases content with
    | text t =>
      obtain rfl : t = text := Option.some.inj htext
      rw [carriedBy, hcontent]
      rfl
    | _ => cases htext

/-- System messages without a text for their content leave no trace. -/
theorem applyMessages_filter (s : Settings) (messages : List Json) :
    s.applyMessages (messages.filter fun m => ¬ IsSystem m ∨ (content? m).isSome = true)
      = s.applyMessages messages := by
  have htexts : systemTexts (messages.filter fun m => ¬ IsSystem m ∨ (content? m).isSome = true)
      = systemTexts messages := by
    rw [systemTexts, systemTexts, List.filter_filter, List.filterMap_filter, List.filterMap_filter]
    apply List.filterMap_congr
    intro m _
    by_cases hsystem : IsSystem m
    · cases content? m <;> simp [hsystem]
    · simp [hsystem]
  rw [applyMessages_eq, applyMessages_eq, contentFor_eq, contentFor_eq, htexts, List.filter_filter]
  congr 1
  apply List.filter_congr
  intro m _
  by_cases hsystem : IsSystem m <;> simp [hsystem]

end

/-- **What the harness instructs is kept as far as it is a text.** Unless they are to be replaced,
the texts of the system messages occur in the content of the new one, in their order, and these are
all the texts that the old contents carry if none of another form carries any. System messages whose
content has another form are dropped: the request is what it would be without them. -/
theorem keeps_instructions_in_texts {s : Settings} (hs : s.strategy ≠ .replace) {body : Json}
    {messages : List Json} (h : body.member? "messages" = some (.array messages)) :
    ∃ content,
      (s.apply body).member? "messages" = some (.array
        (systemMessage content :: messages.filter fun m => ¬ IsSystem m)) ∧
      InOrder (systemTexts messages) content ∧
      ((∀ m ∈ messages, IsSystem m → content? m = none → carriedBy m = []) →
        InOrder ((messages.filter fun m => IsSystem m).flatMap carriedBy) content) ∧
      s.apply body = s.apply (body.withMember "messages"
        (.array (messages.filter fun m => ¬ IsSystem m ∨ (content? m).isSome = true))) := by
  have hkept := inOrder_contentFor hs messages
  refine ⟨s.contentFor messages, member?_apply h, hkept, fun hforms => ?_, ?_⟩
  · rw [flatMap_carriedBy hforms]
    exact hkept
  · rw [apply_of_messages (Json.member?_withMember body "messages" _), applyMessages_filter,
      Json.withMember_withMember, apply_of_messages h]

/-- Two instructions with a question between them, and a third in parts. -/
theorem keeps_instructions_in_texts_two :
    let s : Settings := ⟨"Be brief.", .append⟩
    let question : Json := .object [("content", .text "How far?"), ("role", .text "user")]
    let parts : Json := .array [.object [("text", .text "Be kind."), ("type", .text "text")]]
    let messages : List Json := [systemMessage "Use metres.", question,
      .object [("content", parts), ("role", .text "system")], systemMessage "Name sources."]
    let body : Json := .object [("messages", .array messages)]
    s.strategy ≠ .replace ∧ body.member? "messages" = some (.array messages) ∧
      ∃ content, (s.apply body).member? "messages"
          = some (.array [systemMessage content, question]) ∧
        InOrder ["Use metres.", "Name sources."] content ∧
        s.apply body = s.apply (.object [("messages",
          .array [systemMessage "Use metres.", question, systemMessage "Name sources."])]) := by
  intro s question parts messages body
  have hstrategy : s.strategy ≠ .replace := by decide
  have hmessages : body.member? "messages" = some (.array messages) := rfl
  obtain ⟨content, hnew, htexts, -, htrace⟩ := keeps_instructions_in_texts hstrategy hmessages
  exact ⟨hstrategy, hmessages, content, hnew, htexts, htrace⟩

/-- An instruction in parts is no longer there when the configured text goes before it. -/
theorem instructions_in_parts_vanish :
    let s : Settings := ⟨"Be brief.", .prepend⟩
    let parts : Json := .array [.object [("text", .text "Use metres."), ("type", .text "text")]]
    let messages : List Json := [.object [("content", parts), ("role", .text "system")],
      .object [("content", .text "How far?"), ("role", .text "user")]]
    let body : Json := .object [("messages", .array messages)]
    s.strategy ≠ .replace ∧ body.member? "messages" = some (.array messages) ∧
      ¬ ∃ content others, (s.apply body).member? "messages"
          = some (.array (systemMessage content :: others)) ∧
        InOrder ((messages.filter fun m => IsSystem m).flatMap carriedBy) content := by
  intro s parts messages body
  have hmessages : body.member? "messages" = some (.array messages) := rfl
  refine ⟨by decide, hmessages, ?_⟩
  rintro ⟨content, others, hnew, horder⟩
  rw [member?_apply hmessages] at hnew
  obtain rfl : "Be brief." = content := by
    have hcontent : s.contentFor messages = "Be brief." := rfl
    have hitems := Json.array.inj (Option.some.inj hnew)
    rw [hcontent] at hitems
    simpa [systemMessage] using (List.cons.inj hitems).1
  have hcarried : (messages.filter fun m => IsSystem m).flatMap carriedBy = ["Use metres."] := rfl
  rw [hcarried] at horder
  generalize htext : "Be brief." = text at horder
  cases horder with
  | cons before _ h =>
    -- the text that is left is too short
    have hlength := congrArg String.length htext
    simp only [String.length_append] at hlength
    have hshort : "Be brief.".length < "Use metres.".length := by decide
    omega

end EvalProxy.SystemMessage
