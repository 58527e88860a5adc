/-
# Reasoning spans

Answers of a model may carry its reasoning between a start and an end mark. `split` separates the
two, and `stripBody` does so in every choice of a completion.

Main definitions: `cut?`, `spans`, `split`, `stripBody`.
-/
import EvalProxy.Settings
import EvalProxy.Text.Blank
namespace EvalProxy.Reasoning

/-! ## Settings -/

/-- The marks, and whether the reasoning is kept beside the answer. -/
structure Settings where
  startMark : String
  endMark : String
  keep : Bool

/-- The form of the settings. -/
def form : Form :=
  .ofFields "reasoning" "ReasoningConfig"
    [Json.defaulted "start_token" (.text "<think>") .text,
     Json.defaulted "end_token" (.text "</think>") .text,
     Json.defaulted "keep_reasoning" (.bool false) .flag]

/-- Settings from their normal form. The end mark must not be empty. -/
def Settings.read (value : Json) : Except Failure Settings := do
  let v ← form.read value
  let endMark := Json.asText (Json.field v "end_token")
  if endMark.isEmpty then .error (.settings "reasoning: end_token must not be empty")
  else
    .ok ⟨Json.asText (Json.field v "start_token"), endMark,
      Json.asBool (Json.field v "keep_reasoning")⟩

/-! ## Spans -/

/-- The text before and the text after the first place where a mark stands. -/
def cut? (mark : List Char) : List Char → Option (List Char × List Char)
  | [] => if mark.isEmpty then some ([], []) else none
  | c :: rest =>
    if mark.isPrefixOf (c :: rest) then some ([], (c :: rest).drop mark.length)
    else (cut? mark rest).map fun p => (c :: p.1, p.2)

/-- A cut text is its two parts with the mark between them. -/
theorem eq_of_cut? {mark s before after : List Char} (h : cut? mark s = some (before, after)) :
    s = before ++ mark ++ after := by
  induction s generalizing before with
  | nil =>
    cases mark with
    | nil => simp_all [cut?]
    | cons => simp [cut?] at h
  | cons c rest ih =>
    simp only [cut?] at h
    split at h
    · rename_i hp
      obtain ⟨rfl, rfl⟩ := by simpa using h
      obtain ⟨t, ht⟩ := List.isPrefixOf_iff_prefix.1 hp
      simp [← ht]
    · obtain ⟨⟨a, b⟩, hab, heq⟩ := Option.map_eq_some_iff.1 h
      obtain ⟨rfl, rfl⟩ := by simpa using heq
      simp [ih hab]

/-- The spans of a text in order, each as the visible text before it and the reasoning in it, and
the visible text after the last. A span runs from the first start mark to the first end mark after
it. -/
def spans (startMark endMark : List Char) (s : List Char) :
    List (List Char × List Char) × List Char :=
  match cut? startMark s with
  | none => ([], s)
  | some (visible, rest) =>
    match cut? endMark rest with
    | none => ([], s)
    | some (reasoning, rest) =>
      -- always so unless both marks are empty
      if rest.length < s.length then
        let more := spans startMark endMark rest
        ((visible, reasoning) :: more.1, more.2)
      else ([], s)
termination_by s.length

/-- An answer without its reasoning, and the reasoning if there was any. -/
structure Split where
  content : String
  reasoning : Option String

/-- Trimmed texts on lines of their own. -/
def joinTrimmed (texts : List (List Char)) : String :=
  "\n".intercalate (texts.map fun t => String.ofList (Text.trimChars t))

/-- Separates reasoning from the visible answer. In a text without a whole span everything before
the first end mark is reasoning. -/
def split (marks : Settings) (text : String) : Split :=
  match spans marks.startMark.toList marks.endMark.toList text.toList with
  | ([], _) =>
    match cut? marks.endMark.toList text.toList with
    | none => ⟨text, none⟩
    | some (before, after) =>
      ⟨String.ofList (Text.trimChars after), some (joinTrimmed [before])⟩
  | (found, last) =>
    ⟨String.ofList (Text.trimChars ((found.map (·.1)).flatten ++ last)),
      some (joinTrimmed (found.map (·.2)))⟩

/-! ## Completions -/

/-- A message with its reasoning separated, if there is any. -/
def stripMessage? (marks : Settings) (message : Json) : Option Json := do
  let content ← message.member? "content"
  let text ← content.text?
  let s := split marks text
  let reasoning ← s.reasoning
  let stripped := message.withMember "content" (.text s.content)
  if marks.keep then some (stripped.withMember "reasoning_content" (.text reasoning))
  else some stripped

/-- A choice with its message stripped, if there is reasoning in it. -/
def stripChoice? (marks : Settings) (choice : Json) : Option Json := do
  let message ← choice.member? "message"
  let stripped ← stripMessage? marks message
  some (choice.withMember "message" stripped)

/-- A completion with its choices stripped, if there is reasoning in any. -/
def stripBody? (marks : Settings) (body : Json) : Option Json := do
  let member ← body.member? "choices"
  let choices ← member.array?
  if choices.any fun c => (stripChoice? marks c).isSome then
    some (body.withMember "choices" (.array (choices.map fun c => (stripChoice? marks c).getD c)))
  else none

/-- A response with the reasoning stripped from its body; one without reasoning stays as it is. -/
def onResponse (marks : Settings) (r : Response) : Response :=
  match r.json?.bind (stripBody? marks) with
  | some body => r.withJson body
  | none => r

end EvalProxy.Reasoning
