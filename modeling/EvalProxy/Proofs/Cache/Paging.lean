/-
# Listing while entries are written

Between the steps of a listing entries may be written, to any table and at any key. The listing
still gives out rising keys, none of those that stood in the table when it began is lost, and it
gives out no key that was not in the table when its page was read. It ends once it has caught up,
and for good.

Main definitions: `Turn`, `Listing`, `Listing.Stands`, `Listing.Covers`, `Listing.PageReadAt`,
`Listing.todo`.
Main statements: `Stands.run`, `Covers.run`, `answers_nexts`, `lists_amid_writes`.
-/
import Mathlib.Data.List.Sort
import EvalProxy.Proofs.Cache.Listing
import EvalProxy.Proofs.Cache.Trouble
import EvalProxy.Proofs.Text.Order
namespace EvalProxy.Cache

open Store

/-! ## Turns -/

/-- What happens while keys are listed: trouble with the store begins or ends, a value is written,
or the listing makes a step. -/
inductive Turn where
  | trouble (t : Trouble)
  | put (t : Table) (key : String) (value : Bytes)
  | next

/-- A store, and a place in the listing of one of its tables. -/
structure Listing where
  store : Store
  cursor : Cursor

namespace Listing

/-- The listing of a table before its first step. -/
def start (s : Store) (t : Table) : Listing := ⟨s, .start t⟩

/-- The listing after a turn. -/
def turn (l : Listing) : Turn → Listing
  | .trouble t => { l with store := l.store.amid t }
  | .put t key value =>
    { l with
      store := match l.store.put t key value with
        | .ok written => written
        | .error _ => l.store }
  | .next => { l with cursor := (l.cursor.next l.store).2 }

/-- The listing after some turns. -/
def after (l : Listing) (turns : List Turn) : Listing := turns.foldl turn l

/-- What the next step gives out: a key, a failure, or nothing any more. -/
def answer (l : Listing) : Option (Except Failure String) := (l.cursor.next l.store).1

/-- What the steps among some turns give out. -/
def answers (l : Listing) : List Turn → List (Option (Except Failure String))
  | [] => []
  | .next :: rest => l.answer :: answers (l.turn .next) rest
  | .trouble t :: rest => answers (l.turn (.trouble t)) rest
  | .put t key value :: rest => answers (l.turn (.put t key value)) rest

/-- The key that a step gives out, if it gives one. -/
def keyOf? : Option (Except Failure String) → Option String
  | some (.ok key) => some key
  | _ => none

/-- The keys that are given out in some turns. -/
def given (l : Listing) (turns : List Turn) : List String := (l.answers turns).filterMap keyOf?

/-- The keys of the table as it is now. -/
def keys (l : Listing) : List String := (l.store.table l.cursor.table).keys

/-- No step fails. -/
def Unfailing (l : Listing) (turns : List Turn) : Prop := ∀ e, some (.error e) ∉ l.answers turns

variable {l : Listing}

theorem after_append (l : Listing) (past rest : List Turn) :
    l.after (past ++ rest) = (l.after past).after rest :=
  List.foldl_append

theorem answers_append (l : Listing) (past rest : List Turn) :
    l.answers (past ++ rest) = l.answers past ++ (l.after past).answers rest := by
  induction past generalizing l with
  | nil => rfl
  | cons v past ih =>
    cases v with
    | next => exact congrArg (l.answer :: ·) (ih (l.turn .next))
    | trouble t => exact ih (l.turn (.trouble t))
    | put t key value => exact ih (l.turn (.put t key value))

theorem given_append (l : Listing) (past rest : List Turn) :
    l.given (past ++ rest) = l.given past ++ (l.after past).given rest := by
  rw [given, answers_append, List.filterMap_append]
  rfl

theorem answers_cons (l : Listing) (v : Turn) (rest : List Turn) :
    l.answers (v :: rest) = l.answers [v] ++ (l.turn v).answers rest :=
  l.answers_append [v] rest

theorem given_cons (l : Listing) (v : Turn) (rest : List Turn) :
    l.given (v :: rest) = l.given [v] ++ (l.turn v).given rest :=
  l.given_append [v] rest

/-! ## One step -/

/-- Whether the next step reads a page. -/
def reads (l : Listing) : Bool := l.cursor.buffer.isEmpty && !l.cursor.exhausted

/-- The listing with a page that was just read. -/
def withPage (l : Listing) (page : List String) : Listing :=
  { l with cursor := { l.cursor with buffer := page, exhausted := page.length < pageSize } }

/-- The listing after a step that takes the next key from the page. -/
def popped (l : Listing) : Listing := { l with cursor := l.cursor.pop.2 }

/-- The first keys behind the last one, at most a page of them. -/
def page (l : Listing) : List String :=
  (l.keys.filter (isBehind l.cursor.last)).take pageSize

/-- **What a step does**: it takes a key from the page if that has any or is the last, and otherwise
reads a page first, or fails. -/
theorem step_cases (l : Listing) :
    (l.reads = false ∧ l.answer = l.cursor.pop.1 ∧ l.turn .next = l.popped) ∨
    (l.reads = true ∧ l.answer = (l.withPage l.page).cursor.pop.1 ∧
      l.turn .next = (l.withPage l.page).popped) ∨
    (l.reads = true ∧ ¬ l.store.Lists ∧ (∃ e, l.answer = some (.error e)) ∧
      l.turn .next = { l with cursor := { l.cursor with exhausted := true } }) := by
  unfold answer turn Cursor.next
  cases hreads : l.reads with
  | false =>
    have hready : (l.cursor.buffer.isEmpty && !l.cursor.exhausted) = false := hreads
    rw [hready]
    exact .inl ⟨rfl, rfl, rfl⟩
  | true =>
    have hempty : (l.cursor.buffer.isEmpty && !l.cursor.exhausted) = true := hreads
    rw [hempty]
    right
    by_cases hfails : l.store.lost || l.store.faults.scans l.cursor.table
    · right
      simp only [Store.page, hfails, if_true]
      refine ⟨trivial, ?_, ⟨_, rfl⟩, trivial⟩
      intro hlists
      rw [hlists.present, hlists.scans] at hfails
      cases hfails
    · left
      simp only [Store.page, hfails, Bool.false_eq_true, if_false]
      exact ⟨trivial, rfl, rfl⟩

/-- A key stands behind the last of some rising keys exactly if it stands behind all of them. -/
theorem isBehind_iff {done : List String} (h : done.Pairwise (· < ·)) (key : String) :
    isBehind done.getLast? key = true ↔ ∀ d ∈ done, d < key := by
  rcases List.eq_nil_or_concat done with rfl | ⟨init, last, rfl⟩
  · simp [isBehind]
  · rw [List.concat_eq_append] at h ⊢
    obtain ⟨-, -, hacross⟩ := List.pairwise_append.1 h
    rw [List.getLast?_concat, isBehind, decide_eq_true_eq]
    constructor
    · intro hlt d hd
      rcases List.mem_append.1 hd with hinit | hlast
      · exact String.lt_trans (hacross d hinit last (by simp)) hlt
      · rwa [List.mem_singleton.1 hlast]
    · intro hall
      exact hall last (by simp)

/-! ## Where a listing stands -/

/-- Some keys were given out: they rise together with those of the page, stand in the table as it
is now, and their last is where the next page starts. -/
structure Stands (l : Listing) (done : List String) : Prop where
  rising : (done ++ l.cursor.buffer).Pairwise (· < ·)
  present : ∀ key ∈ done ++ l.cursor.buffer, key ∈ l.keys
  last : l.cursor.last = done.getLast?

/-- None of some keys is skipped: each was given out, stands on the page, or lies behind it all
while more pages follow. -/
def Covers (l : Listing) (old done : List String) : Prop :=
  ∀ key ∈ old, key ∈ done ++ l.cursor.buffer ∨
    (l.cursor.exhausted = false ∧ key ∈ l.keys ∧ ∀ d ∈ done ++ l.cursor.buffer, d < key)

variable {old done : List String}

/-- At the start nothing was given, and the listing stands so. -/
theorem stands_start (s : Store) (t : Table) : Stands (start s t) [] :=
  ⟨.nil, nofun, rfl⟩

/-- At the start all keys of the table are still to come. -/
theorem covers_start (s : Store) (t : Table) : Covers (start s t) (start s t).keys [] :=
  fun _ hkey => .inr ⟨rfl, hkey, nofun⟩

/-- Any selection of the keys of a listing is in increasing order. -/
theorem pairwise_filter_keys (l : Listing) (p : String → Bool) :
    (l.keys.filter p).Pairwise (· < ·) :=
  (pairwise_keys _).filter p

theorem mem_keys_of_mem_page {key : String} (h : key ∈ l.page) : key ∈ l.keys :=
  (List.mem_filter.1 (List.mem_of_mem_take h)).1

/-- A new page goes on where the keys that were given out end. -/
theorem Stands.withPage (h : l.Stands done) (hempty : l.cursor.buffer = []) :
    (l.withPage l.page).Stands done := by
  have hdone : done.Pairwise (· < ·) := by
    have hrising := h.rising
    rwa [hempty, List.append_nil] at hrising
  have hpage (key : String) (hkey : key ∈ l.page) : key ∈ l.keys ∧ ∀ d ∈ done, d < key := by
    obtain ⟨hmem, hbehind⟩ := List.mem_filter.1 (List.mem_of_mem_take hkey)
    rw [h.last, isBehind_iff hdone] at hbehind
    exact ⟨hmem, hbehind⟩
  refine ⟨?_, ?_, h.last⟩
  · have hrising : l.page.Pairwise (· < ·) :=
      (l.pairwise_filter_keys _).sublist (List.take_sublist _ _)
    exact List.pairwise_append.2 ⟨hdone, hrising, fun d hd key hkey => (hpage key hkey).2 d hd⟩
  · intro key hkey
    rcases List.mem_append.1 hkey with hkey | hkey
    · exact h.present key (List.mem_append_left _ hkey)
    · exact (hpage key hkey).1

/-- A new page skips no key. -/
theorem Covers.withPage (hstands : l.Stands done) (h : l.Covers old done)
    (hempty : l.cursor.buffer = []) : (l.withPage l.page).Covers old done := by
  intro key hkey
  rcases h key hkey with hdone | ⟨-, hmem, hbehind⟩
  · rw [hempty, List.append_nil] at hdone
    exact .inl (List.mem_append_left _ hdone)
  rw [hempty, List.append_nil] at hbehind
  have hrising := hstands.rising
  rw [hempty, List.append_nil] at hrising
  let found := l.keys.filter (isBehind l.cursor.last)
  have hfound : key ∈ found.take pageSize ++ found.drop pageSize := by
    rw [List.take_append_drop]
    refine List.mem_filter.2 ⟨hmem, ?_⟩
    rw [hstands.last, isBehind_iff hrising]
    exact hbehind
  -- what does not fit on the page lies behind it, and then the page is full
  rcases List.mem_append.1 hfound with hpage | hrest
  · exact .inl (List.mem_append_right _ hpage)
  · refine .inr ⟨?_, hmem, ?_⟩
    · have hlength := List.length_pos_of_mem hrest
      rw [List.length_drop] at hlength
      have hfull : ¬ (found.take pageSize).length < pageSize := by
        rw [List.length_take]
        omega
      exact decide_eq_false hfull
    · have hsorted : (found.take pageSize ++ found.drop pageSize).Pairwise (· < ·) := by
        rw [List.take_append_drop]
        exact l.pairwise_filter_keys _
      intro d hd
      rcases List.mem_append.1 hd with hd | hd
      · exact hbehind d hd
      · exact (List.pairwise_append.1 hsorted).2.2 d hd key hrest

/-- Taking a key from the page gives it out. -/
theorem popped_cases (l : Listing) :
    (l.cursor.buffer = [] ∧ l.cursor.pop.1 = none ∧ l.popped = l) ∨
    ∃ key rest, l.cursor.buffer = key :: rest ∧ l.cursor.pop.1 = some (.ok key) ∧
      l.popped = { l with cursor := { l.cursor with last := some key, buffer := rest } } := by
  unfold popped Cursor.pop
  cases hbuffer : l.cursor.buffer with
  | nil => exact .inl ⟨rfl, rfl, rfl⟩
  | cons key rest => exact .inr ⟨key, rest, rfl, rfl, rfl⟩

theorem keys_popped (l : Listing) : l.popped.keys = l.keys := by
  rcases l.popped_cases with ⟨-, -, hpopped⟩ | ⟨key, rest, -, -, hpopped⟩
  · rw [hpopped]
  · rw [hpopped]
    rfl

theorem mem_of_mem_popped {key : String} (h : key ∈ l.popped.cursor.buffer) :
    key ∈ l.cursor.buffer := by
  rcases l.popped_cases with ⟨-, -, hpopped⟩ | ⟨first, rest, hbuffer, -, hpopped⟩
  · rwa [hpopped] at h
  · rw [hpopped] at h
    rw [hbuffer]
    exact List.mem_cons_of_mem first h

/-- Where the listing stands moves on with the key that is taken from the buffer. -/
theorem Stands.popped (h : l.Stands done) :
    l.popped.Stands (done ++ (keyOf? l.cursor.pop.1).toList) := by
  rcases l.popped_cases with ⟨-, hpop, hpopped⟩ | ⟨key, rest, hbuffer, hpop, hpopped⟩
  · rw [hpop, hpopped]
    simpa [keyOf?] using h
  · have hassoc : done ++ [key] ++ rest = done ++ l.cursor.buffer := by
      rw [hbuffer, List.append_assoc]
      rfl
    rw [hpop, hpopped]
    refine ⟨?_, ?_, ?_⟩
    · show (done ++ [key] ++ rest).Pairwise (· < ·)
      rw [hassoc]
      exact h.rising
    · show ∀ k ∈ done ++ [key] ++ rest, k ∈ l.keys
      rw [hassoc]
      exact h.present
    · exact List.getLast?_concat.symm

/-- What the listing covers is kept when a key is taken from the buffer. -/
theorem Covers.popped (h : l.Covers old done) :
    l.popped.Covers old (done ++ (keyOf? l.cursor.pop.1).toList) := by
  rcases l.popped_cases with ⟨-, hpop, hpopped⟩ | ⟨key, rest, hbuffer, hpop, hpopped⟩
  · rw [hpop, hpopped]
    simpa [keyOf?] using h
  · have hassoc : done ++ [key] ++ rest = done ++ l.cursor.buffer := by
      rw [hbuffer, List.append_assoc]
      rfl
    rw [hpop, hpopped]
    intro k hk
    show k ∈ done ++ [key] ++ rest ∨ (_ ∧ _ ∧ ∀ d ∈ done ++ [key] ++ rest, d < k)
    rw [hassoc]
    exact h k hk

/-! ## Turns and runs -/

/-- No turn takes a key from the table. -/
theorem mem_keys_turn (l : Listing) (v : Turn) {key : String} (h : key ∈ l.keys) :
    key ∈ (l.turn v).keys := by
  cases v with
  | trouble t =>
    show key ∈ ((l.store.amid t).table l.cursor.table).keys
    rw [table_amid]
    exact h
  | put t key' value =>
    show key ∈ ((match l.store.put t key' value with
      | .ok written => written
      | .error _ => l.store).table l.cursor.table).keys
    cases hput : l.store.put t key' value with
    | error e => exact h
    | ok written =>
      rw [Dict.mem_keys_iff, get?_of_put hput]
      split
      · rfl
      · exact (Dict.mem_keys_iff _ _).1 h
  | next =>
    rcases l.step_cases with ⟨-, -, hturn⟩ | ⟨-, -, hturn⟩ | ⟨-, -, -, hturn⟩
    · rw [hturn, keys_popped]
      exact h
    · rw [hturn, keys_popped]
      exact h
    · rw [hturn]
      exact h

/-- A turn that asks gives the key of its answer, if it has one. -/
theorem given_next (l : Listing) : l.given [.next] = (keyOf? l.answer).toList := by
  show [l.answer].filterMap keyOf? = _
  cases h : keyOf? l.answer <;> simp [h]

theorem buffer_of_reads (h : l.reads = true) : l.cursor.buffer = [] := by
  rw [reads, Bool.and_eq_true] at h
  exact List.isEmpty_iff.1 h.1

/-- **One turn** keeps a listing in its place. -/
theorem Stands.turn (h : l.Stands done) (v : Turn) :
    (l.turn v).Stands (done ++ l.given [v]) := by
  have hquiet (v : Turn) (hcursor : (l.turn v).cursor = l.cursor) : (l.turn v).Stands done := by
    refine ⟨?_, ?_, ?_⟩
    · rw [hcursor]
      exact h.rising
    · intro key hkey
      rw [hcursor] at hkey
      exact l.mem_keys_turn v (h.present key hkey)
    · rw [hcursor]
      exact h.last
  cases v with
  | trouble t => simpa [given, answers] using hquiet (.trouble t) rfl
  | put t key value => simpa [given, answers] using hquiet (.put t key value) rfl
  | next =>
    rw [given_next]
    rcases l.step_cases with ⟨-, hanswer, hturn⟩ | ⟨hreads, hanswer, hturn⟩ |
      ⟨-, -, ⟨e, hanswer⟩, hturn⟩
    · rw [hanswer, hturn]
      exact h.popped
    · rw [hanswer, hturn]
      exact (h.withPage (buffer_of_reads hreads)).popped
    · rw [hanswer, hturn]
      show Stands _ (done ++ [])
      rw [List.append_nil]
      exact ⟨h.rising, h.present, h.last⟩

/-- **One turn that does not fail** skips no key. -/
theorem Covers.turn (hstands : l.Stands done) (h : l.Covers old done) {v : Turn}
    (hfine : l.Unfailing [v]) : (l.turn v).Covers old (done ++ l.given [v]) := by
  have hquiet (v : Turn) (hcursor : (l.turn v).cursor = l.cursor) :
      (l.turn v).Covers old done := by
    intro key hkey
    rw [hcursor]
    exact (h key hkey).imp_right fun hlater => ⟨hlater.1, l.mem_keys_turn v hlater.2.1, hlater.2.2⟩
  cases v with
  | trouble t => simpa [given, answers] using hquiet (.trouble t) rfl
  | put t key value => simpa [given, answers] using hquiet (.put t key value) rfl
  | next =>
    rw [given_next]
    rcases l.step_cases with ⟨-, hanswer, hturn⟩ | ⟨hreads, hanswer, hturn⟩ |
      ⟨-, -, ⟨e, hanswer⟩, -⟩
    · rw [hanswer, hturn]
      exact h.popped
    · rw [hanswer, hturn]
      exact (Covers.withPage hstands h (buffer_of_reads hreads)).popped
    · exact absurd (List.mem_singleton.2 hanswer.symm) (hfine e)

/-- **Any number of turns** keep a listing in its place. -/
theorem Stands.run (h : l.Stands done) (turns : List Turn) :
    (l.after turns).Stands (done ++ l.given turns) := by
  induction turns generalizing l done with
  | nil => simpa [given, answers, after] using h
  | cons v rest ih =>
    rw [given_cons, ← List.append_assoc]
    exact ih (h.turn v)

/-- **Any number of turns that do not fail** skip no key. -/
theorem Covers.run (hstands : l.Stands done) (h : l.Covers old done) {turns : List Turn}
    (hfine : l.Unfailing turns) : (l.after turns).Covers old (done ++ l.given turns) := by
  induction turns generalizing l done with
  | nil => simpa [given, answers, after] using h
  | cons v rest ih =>
    have hanswers := l.answers_cons v rest
    rw [given_cons, ← List.append_assoc]
    refine ih (hstands.turn v) (Covers.turn hstands h fun e he => ?_) fun e he => ?_
    · exact hfine e (hanswers ▸ List.mem_append_left _ he)
    · exact hfine e (hanswers ▸ List.mem_append_right _ he)

/-! ## The page of a key -/

/-- The last page that was read in some turns is the one that the step after the earlier of them
reads. -/
def PageReadAt (l : Listing) (turns earlier : List Turn) : Prop :=
  earlier ++ [.next] <+: turns ∧ (l.after earlier).reads = true ∧
    ∀ later, later ++ [.next] <+: turns → (l.after later).reads = true → later <+: earlier

/-- The turn that reads a page reads it at that moment. -/
theorem pageReadAt_now {turns : List Turn} (h : (l.after turns).reads = true) :
    l.PageReadAt (turns ++ [.next]) turns := by
  refine ⟨List.prefix_rfl, h, fun later hlater _ => ?_⟩
  have hbegins := (List.prefix_append later [.next]).trans hlater
  refine List.prefix_of_prefix_length_le hbegins (List.prefix_append turns [.next]) ?_
  have hlength := hlater.length_le
  rw [List.length_append, List.length_append] at hlength
  exact Nat.le_of_add_le_add_right hlength

/-- The page in use stays the one that was read last until another one is read. -/
theorem PageReadAt.later {turns earlier : List Turn} (h : l.PageReadAt turns earlier) {v : Turn}
    (hsame : v = .next → (l.after turns).reads = false) : l.PageReadAt (turns ++ [v]) earlier := by
  obtain ⟨hbegins, hreads, hlatest⟩ := h
  refine ⟨hbegins.trans (List.prefix_append turns [v]), hreads, fun later hlater hread => ?_⟩
  rcases List.prefix_concat_iff.1 hlater with heq | hlater
  · obtain ⟨rfl, hv⟩ := List.append_inj' heq rfl
    rw [hsame (List.singleton_inj.1 hv).symm] at hread
    cases hread
  · exact hlatest later hlater hread

/-- What stands on the page was in the table when the page was read. -/
theorem exists_pageReadAt_of_buffered (hempty : l.cursor.buffer = []) {turns : List Turn}
    {key : String} (hkey : key ∈ (l.after turns).cursor.buffer) :
    ∃ earlier, l.PageReadAt turns earlier ∧ key ∈ (l.after earlier).keys := by
  induction turns using List.reverseRecOn with
  | nil =>
    rw [show l.after [] = l from rfl, hempty] at hkey
    cases hkey
  | append_singleton past v ih =>
    rw [after_append] at hkey
    have hsame (hbefore : key ∈ (l.after past).cursor.buffer)
        (hquiet : v = .next → (l.after past).reads = false) :
        ∃ earlier, l.PageReadAt (past ++ [v]) earlier ∧ key ∈ (l.after earlier).keys := by
      obtain ⟨earlier, hpage, hmem⟩ := ih hbefore
      exact ⟨earlier, hpage.later hquiet, hmem⟩
    cases v with
    | trouble t => exact hsame hkey nofun
    | put t key' value => exact hsame hkey nofun
    | next =>
      have hkey : key ∈ ((l.after past).turn .next).cursor.buffer := hkey
      rcases (l.after past).step_cases with ⟨hreads, -, hturn⟩ | ⟨hreads, -, hturn⟩ |
        ⟨hreads, -, -, hturn⟩
      · rw [hturn] at hkey
        exact hsame (mem_of_mem_popped hkey) fun _ => hreads
      · rw [hturn] at hkey
        exact ⟨past, pageReadAt_now hreads, mem_keys_of_mem_page (mem_of_mem_popped hkey)⟩
      · rw [hturn] at hkey
        have hkey : key ∈ (l.after past).cursor.buffer := hkey
        rw [buffer_of_reads hreads] at hkey
        cases hkey

/-! ## The end -/

/-- No key is left on the page, and no page follows. -/
def Over (l : Listing) : Prop := l.cursor.buffer = [] ∧ l.cursor.exhausted = true

theorem reads_of_over (h : l.Over) : l.reads = false := by
  rw [reads, h.2]
  exact Bool.and_false _

/-- A listing that is over gives nothing and stays as it is. -/
theorem answer_of_over (h : l.Over) : l.answer = none ∧ l.turn .next = l := by
  rcases l.step_cases with ⟨-, hanswer, hturn⟩ | ⟨hreads, -⟩ | ⟨hreads, -⟩
  · rw [hanswer, hturn]
    rcases l.popped_cases with ⟨-, hpop, hpopped⟩ | ⟨key, rest, hbuffer, -⟩
    · exact ⟨hpop, hpopped⟩
    · rw [h.1] at hbuffer
      cases hbuffer
  all_goals
    rw [reads_of_over h] at hreads
    cases hreads

/-- A listing that is over stays over, whatever is written. -/
theorem Over.turn (h : l.Over) (v : Turn) : (l.turn v).Over := by
  cases v with
  | trouble t => exact h
  | put t key value => exact h
  | next =>
    rw [(answer_of_over h).2]
    exact h

/-- A listing that is over gives out nothing any more, whatever is written. -/
theorem answers_of_over (h : l.Over) (turns : List Turn) : ∀ a ∈ l.answers turns, a = none := by
  induction turns generalizing l with
  | nil => exact nofun
  | cons v rest ih =>
    intro a ha
    rw [answers_cons] at ha
    rcases List.mem_append.1 ha with ha | ha
    · cases v with
      | trouble t => cases ha
      | put t key value => cases ha
      | next => rw [List.mem_singleton.1 ha, (answer_of_over h).1]
    · exact ih (h.turn v) a ha

/-- A listing is over once a step gives out no key. -/
theorem over_turn (h : keyOf? l.answer = none) : (l.turn .next).Over := by
  have hpopped (l : Listing) (hready : l.reads = false) (hpop : keyOf? l.cursor.pop.1 = none) :
      l.popped.Over := by
    rcases l.popped_cases with ⟨hempty, -, hpopped⟩ | ⟨key, rest, -, hkey, -⟩
    · rw [hpopped]
      refine ⟨hempty, ?_⟩
      rw [reads, hempty] at hready
      simpa using hready
    · rw [hkey] at hpop
      cases hpop
  rcases l.step_cases with ⟨hreads, hanswer, hturn⟩ | ⟨-, hanswer, hturn⟩ | ⟨hreads, -, -, hturn⟩
  · rw [hturn]
    exact hpopped l hreads (hanswer ▸ h)
  · rw [hturn]
    refine hpopped (l.withPage l.page) ?_ (hanswer ▸ h)
    -- an empty page is short
    cases hpage : l.page with
    | nil => rfl
    | cons key rest => rfl
  · rw [hturn]
    have hempty : l.cursor.buffer = [] := buffer_of_reads hreads
    exact ⟨hempty, rfl⟩

/-- After an answer without a key the listing is over. -/
theorem over_after {turns : List Turn} {a : Option (Except Failure String)}
    (hanswer : a ∈ l.answers turns) (hkey : keyOf? a = none) : (l.after turns).Over := by
  have hstays (l : Listing) (h : l.Over) (turns : List Turn) : (l.after turns).Over := by
    induction turns generalizing l with
    | nil => exact h
    | cons v rest ih => exact ih _ (h.turn v)
  induction turns generalizing l with
  | nil => cases hanswer
  | cons v rest ih =>
    rw [answers_cons] at hanswer
    rcases List.mem_append.1 hanswer with hanswer | hanswer
    · cases v with
      | trouble t => cases hanswer
      | put t key value => cases hanswer
      | next =>
        rw [List.mem_singleton.1 hanswer] at hkey
        exact hstays _ (over_turn hkey) rest
    · exact ih hanswer

/-! ## Undisturbed steps -/

/-- The keys that are still to come if nothing is written any more. -/
def todo (l : Listing) : List String :=
  l.cursor.buffer ++
    if l.cursor.exhausted then []
    else l.keys.filter (isBehind (l.cursor.buffer.getLast?.or l.cursor.last))

theorem todo_of_over (h : l.Over) : l.todo = [] := by
  rw [todo, h.1, h.2]
  rfl

/-- Taking a key from the page takes it from those that are to come. -/
theorem todo_popped (h : l.reads = false) :
    l.cursor.pop.1 = l.todo.head?.map .ok ∧ l.popped.todo = l.todo.tail := by
  rcases l.popped_cases with ⟨hempty, hpop, hpopped⟩ | ⟨key, rest, hbuffer, hpop, hpopped⟩
  · have hover : l.Over := by
      rw [reads, hempty] at h
      exact ⟨hempty, by simpa using h⟩
    rw [hpop, hpopped, todo_of_over hover]
    exact ⟨rfl, rfl⟩
  · rw [hpop, hpopped, todo, hbuffer, List.getLast?_cons]
    refine ⟨rfl, ?_⟩
    show rest ++ (if l.cursor.exhausted then [] else
      l.keys.filter (isBehind (rest.getLast?.or (some key)))) = _
    cases rest.getLast? <;> rfl

/-- Behind the last of the first keys behind a given one come the others behind it. -/
theorem filter_isBehind_take {keys : List String} (h : keys.Pairwise (· < ·))
    (last : Option String) (n : Nat) :
    keys.filter (isBehind (((keys.filter (isBehind last)).take n).getLast?.or last)) =
      (keys.filter (isBehind last)).drop n := by
  let found := keys.filter (isBehind last)
  show keys.filter (isBehind ((found.take n).getLast?.or last)) = found.drop n
  have hsorted : (found.take n ++ found.drop n).Pairwise (· < ·) := by
    rw [List.take_append_drop]
    exact h.filter _
  have hdrop := filter_isBehind hsorted
  rw [List.take_append_drop] at hdrop
  cases hlast : (found.take n).getLast? with
  | none =>
    rw [List.getLast?_eq_none_iff] at hlast
    have hall := List.take_append_drop n found
    rw [hlast] at hall
    exact hall.symm
  | some key =>
    have hkey : key ∈ found := List.mem_of_mem_take (List.mem_of_getLast? hlast)
    have hlater : isBehind last key = true := (List.mem_filter.1 hkey).2
    rw [hlast, List.filter_filter] at hdrop
    rw [← hdrop]
    refine List.filter_congr fun k _ => ?_
    show isBehind (some key) k = (isBehind (some key) k && isBehind last k)
    cases last with
    | none => exact (Bool.and_true _).symm
    | some l =>
      simp only [isBehind, decide_eq_true_eq] at hlater ⊢
      by_cases hk : key < k
      · simp [hk, String.lt_trans hlater hk]
      · simp [hk]

/-- Reading a page leaves what is to come. -/
theorem todo_withPage (h : l.reads = true) : (l.withPage l.page).todo = l.todo := by
  let found := l.keys.filter (isBehind l.cursor.last)
  have hfresh : l.cursor.exhausted = false := by
    rw [reads, Bool.and_eq_true] at h
    simpa using h.2
  have htodo : l.todo = found := by
    rw [todo, buffer_of_reads h, hfresh]
    rfl
  rw [htodo]
  show found.take pageSize ++ (if decide ((found.take pageSize).length < pageSize) then [] else
    l.keys.filter (isBehind ((found.take pageSize).getLast?.or l.cursor.last))) = found
  have hrest : l.keys.filter (isBehind ((found.take pageSize).getLast?.or l.cursor.last))
      = found.drop pageSize :=
    filter_isBehind_take (pairwise_keys _) _ _
  rw [hrest]
  split
  · rename_i hshort
    have hshort := of_decide_eq_true hshort
    rw [List.length_take] at hshort
    rw [List.append_nil]
    exact List.take_of_length_le (by omega)
  · exact List.take_append_drop _ _

/-- **An undisturbed step** gives out the first of the keys that are to come. -/
theorem step_of_lists (hlists : l.store.Lists) :
    l.answer = l.todo.head?.map .ok ∧ (l.turn .next).todo = l.todo.tail := by
  rcases l.step_cases with ⟨hready, hanswer, hturn⟩ | ⟨hreads, hanswer, hturn⟩ | ⟨-, hnot, -⟩
  · rw [hanswer, hturn]
    exact todo_popped hready
  · have hready : (l.withPage l.page).reads = false := by
      cases hpage : l.page with
      | nil => rfl
      | cons key rest => rfl
    rw [hanswer, hturn, ← todo_withPage hreads]
    exact todo_popped hready
  · exact absurd hlists hnot

/-- **Undisturbed steps** give out the keys that are to come, and then nothing any more. -/
theorem answers_nexts (hlists : l.store.Lists) (n : Nat) :
    l.answers (List.replicate n .next) = (List.range n).map fun i => l.todo[i]?.map .ok := by
  induction n generalizing l with
  | zero => rfl
  | succ n ih =>
    obtain ⟨hanswer, htodo⟩ := step_of_lists hlists
    have hrest := ih (l := l.turn .next) hlists
    show l.answer :: (l.turn .next).answers (List.replicate n .next) = _
    rw [hrest, htodo, hanswer, List.range_succ_eq_map, List.map_cons, List.map_map,
      List.head?_eq_getElem?]
    refine congrArg _ (List.map_congr_left fun i _ => ?_)
    rw [List.getElem?_tail]
    rfl

/-- What is to come goes on where the keys that were given out end. -/
theorem Stands.todo (h : l.Stands done) :
    (done ++ l.todo).Pairwise (· < ·) ∧ ∀ key ∈ done ++ l.todo, key ∈ l.keys := by
  rw [Listing.todo, ← List.append_assoc]
  have hlast : l.cursor.buffer.getLast?.or l.cursor.last
      = (done ++ l.cursor.buffer).getLast? := by
    rw [h.last, List.getLast?_append]
  have hlater (key : String) (hkey : key ∈ if l.cursor.exhausted then [] else
      l.keys.filter (isBehind (l.cursor.buffer.getLast?.or l.cursor.last))) :
      key ∈ l.keys ∧ ∀ d ∈ done ++ l.cursor.buffer, d < key := by
    split at hkey
    · cases hkey
    · rw [hlast] at hkey
      obtain ⟨hmem, hbehind⟩ := List.mem_filter.1 hkey
      exact ⟨hmem, (isBehind_iff h.rising key).1 hbehind⟩
  constructor
  · refine List.pairwise_append.2 ⟨h.rising, ?_, fun d hd key hkey => (hlater key hkey).2 d hd⟩
    split
    · exact .nil
    · exact l.pairwise_filter_keys _
  · intro key hkey
    rcases List.mem_append.1 hkey with hkey | hkey
    · exact h.present key hkey
    · exact (hlater key hkey).1

/-- No key that is covered is skipped. -/
theorem Covers.todo (hstands : l.Stands done) (h : l.Covers old done) :
    ∀ key ∈ old, key ∈ done ++ l.todo := by
  intro key hkey
  rw [Listing.todo, ← List.append_assoc]
  rcases h key hkey with hgiven | ⟨hmore, hmem, hbehind⟩
  · exact List.mem_append_left _ hgiven
  · refine List.mem_append_right _ ?_
    rw [hmore, hstands.last, ← List.getLast?_append]
    exact List.mem_filter.2 ⟨hmem, (isBehind_iff hstands.rising key).2 hbehind⟩

/-! ## Listing amid writes -/

theorem table_turn (l : Listing) (v : Turn) : (l.turn v).cursor.table = l.cursor.table := by
  have hpopped (l : Listing) : l.popped.cursor.table = l.cursor.table := by
    rcases l.popped_cases with ⟨-, -, hpopped⟩ | ⟨key, rest, -, -, hpopped⟩
    all_goals rw [hpopped]
  cases v with
  | trouble t => rfl
  | put t key value => rfl
  | next =>
    rcases l.step_cases with ⟨-, -, hturn⟩ | ⟨-, -, hturn⟩ | ⟨-, -, -, hturn⟩
    · rw [hturn, hpopped]
    · rw [hturn, hpopped]
      rfl
    · rw [hturn]

/-- The keys of a listing are those that its table has at the moment. -/
theorem keys_after (s : Store) (t : Table) (turns : List Turn) :
    ((start s t).after turns).keys = (((start s t).after turns).store.table t).keys := by
  have htable : ((start s t).after turns).cursor.table = t := by
    induction turns using List.reverseRecOn with
    | nil => rfl
    | append_singleton past v ih =>
      rw [after_append]
      exact (table_turn _ v).trans ih
  rw [keys, htable]

/-- Rising keys that are those of the table are its list of keys. -/
theorem eq_keys {found : List String} (hrising : found.Pairwise (· < ·))
    (hsub : ∀ key ∈ found, key ∈ l.keys) (hall : ∀ key ∈ l.keys, key ∈ found) :
    found = l.keys :=
  hrising.eq_of_mem_iff (pairwise_keys _) fun key => ⟨hsub key, hall key⟩

/-- A key that a step gives out was in the table when its page was read. -/
theorem exists_pageReadAt_of_answer (hempty : l.cursor.buffer = []) {past : List Turn}
    {key : String} (hanswer : (l.after past).answer = some (.ok key)) :
    ∃ earlier, l.PageReadAt (past ++ [.next]) earlier ∧ key ∈ (l.after earlier).keys := by
  have hmem (l : Listing) (hpop : l.cursor.pop.1 = some (.ok key)) : key ∈ l.cursor.buffer := by
    rcases l.popped_cases with ⟨-, hnone, -⟩ | ⟨first, rest, hbuffer, hfirst, -⟩
    · rw [hnone] at hpop
      cases hpop
    · rw [hfirst] at hpop
      cases hpop
      rw [hbuffer]
      exact List.mem_cons_self
  rcases (l.after past).step_cases with ⟨hready, hpop, -⟩ | ⟨hreads, hpop, -⟩ | ⟨-, -, ⟨e, he⟩, -⟩
  · obtain ⟨earlier, hpage, hkey⟩ :=
      exists_pageReadAt_of_buffered hempty (hmem _ (hpop.symm.trans hanswer))
    exact ⟨earlier, hpage.later fun _ => hready, hkey⟩
  · have hkey : key ∈ ((l.after past).withPage (l.after past).page).cursor.buffer :=
      hmem _ (hpop.symm.trans hanswer)
    exact ⟨past, pageReadAt_now hreads, mem_keys_of_mem_page hkey⟩
  · rw [he] at hanswer
    cases hanswer

/-- **Listing amid writes.** Whatever is written, to whatever table, between the steps of a listing:
the keys rise in byte order; each was in the table when its page was read; a listing that came to
its end without failing gave out every key that the table had when it began, exactly once, and those
are all if the table gained none; once nothing is written any more, the keys that are still to come
are given out, and then nothing; and after the first step without a key, a failure or the end,
nothing is given out any more. -/
theorem lists_amid_writes (s : Store) (t : Table) (turns : List Turn) :
    let l := start s t
    let given := l.given turns
    let now := l.after turns
    (given.map Text.encode).Pairwise (· < ·) ∧
    (∀ past rest key, turns = past ++ .next :: rest → (l.after past).answer = some (.ok key) →
      ∃ earlier, l.PageReadAt (past ++ [.next]) earlier ∧
        key ∈ ((l.after earlier).store.table t).keys) ∧
    (l.Unfailing turns → none ∈ l.answers turns →
      (∀ key ∈ (s.table t).keys, given.count key = 1) ∧
      ((now.store.table t).keys = (s.table t).keys → given = (s.table t).keys)) ∧
    (now.store.Lists →
      (∀ n, now.answers (List.replicate n .next) =
        (List.range n).map fun i => now.todo[i]?.map .ok) ∧
      (given ++ now.todo).Pairwise (· < ·) ∧
      (∀ key ∈ given ++ now.todo, key ∈ (now.store.table t).keys) ∧
      (l.Unfailing turns →
        (∀ key ∈ (s.table t).keys, key ∈ given ++ now.todo) ∧
        ((now.store.table t).keys = (s.table t).keys → given ++ now.todo = (s.table t).keys))) ∧
    (∀ a ∈ l.answers turns, keyOf? a = none → ∀ later, ∀ b ∈ now.answers later, b = none) := by
  intro l given now
  have hstands : now.Stands given := (stands_start s t).run turns
  obtain ⟨hrising, hpresent⟩ := hstands.todo
  have hkeys : now.keys = (now.store.table t).keys := keys_after s t turns
  have hcovers (hfine : l.Unfailing turns) :
      ∀ key ∈ (s.table t).keys, key ∈ given ++ now.todo :=
    Covers.todo hstands (Covers.run (stands_start s t) (covers_start s t) hfine)
  have hwhole (hfine : l.Unfailing turns) (hsame : (now.store.table t).keys = (s.table t).keys) :
      given ++ now.todo = (s.table t).keys := by
    rw [← hsame, ← hkeys]
    refine eq_keys hrising hpresent fun key hkey => hcovers hfine key ?_
    rwa [← hsame, ← hkeys]
  refine ⟨?_, ?_, ?_, ?_, ?_⟩
  · have hgiven : given.Pairwise (· < ·) := (List.pairwise_append.1 hrising).1
    rw [List.pairwise_map]
    exact hgiven.imp Text.encode_lt_encode_iff.2
  · intro past rest key _ hanswer
    obtain ⟨earlier, hpage, hkey⟩ := exists_pageReadAt_of_answer rfl hanswer
    rw [keys_after] at hkey
    exact ⟨earlier, hpage, hkey⟩
  · intro hfine hended
    have hnothing : now.todo = [] := todo_of_over (over_after hended rfl)
    rw [hnothing, List.append_nil] at hcovers hwhole hrising
    have hnodup : given.Nodup := hrising.imp String.ne_of_lt
    exact ⟨fun key hkey => List.count_eq_one_of_mem hnodup (hcovers hfine key hkey), hwhole hfine⟩
  · intro hlists
    refine ⟨answers_nexts hlists, hrising, fun key hkey => ?_, fun hfine => ?_⟩
    · rw [← hkeys]
      exact hpresent key hkey
    · exact ⟨hcovers hfine, hwhole hfine⟩
  · intro a ha hkey later
    exact answers_of_over (over_after ha hkey) later

/-- A key that is written before the first step is listed; one that is written in front of the last
key is not. -/
theorem lists_amid_writes_ended :
    let s : Store := { Store.empty with requests := Dict.empty.insert "b" (.sound []) }
    let l := start s .requests
    let past : List Turn := [.put .requests "d" [1], .next, .put .requests "a" [2]]
    let turns := past ++ [.next, .put .responses "c" [3], .next]
    l.answers turns = [some (.ok "b"), some (.ok "d"), none] ∧
    (l.given turns).count "b" = 1 ∧ ((l.given turns).map Text.encode).Pairwise (· < ·) ∧
    (∃ earlier, l.PageReadAt (past ++ [.next]) earlier ∧
      "d" ∈ ((l.after earlier).store.table .requests).keys) ∧
    (l.after turns).answers (List.replicate 2 .next) = [none, none] ∧
    ∀ later, ∀ b ∈ (l.after turns).answers later, b = none := by
  intro s l past turns
  have hanswers : l.answers turns = [some (.ok "b"), some (.ok "d"), none] := rfl
  have hfine : l.Unfailing turns := by
    intro e he
    rw [hanswers] at he
    simp at he
  have hended : none ∈ l.answers turns := by
    rw [hanswers]
    simp
  obtain ⟨hrising, hread, hcount, hundisturbed, hover⟩ := lists_amid_writes s .requests turns
  refine ⟨hanswers, ?_, hrising, ?_, ?_, ?_⟩
  · exact (hcount hfine hended).1 "b" List.mem_cons_self
  · exact hread past [.put .responses "c" [3], .next] "d" rfl rfl
  · exact (hundisturbed ⟨rfl, fun _ => rfl⟩).1 2
  · exact hover none hended rfl

end Listing

end EvalProxy.Cache
