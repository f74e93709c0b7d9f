import HttpWorkflow.Proofs.Document.RoundTrip
import HttpWorkflow.Proofs.Members.LastWins
import Mathlib

/-! Condition tables, read from documents.

A document may write a key as a text, a whole number or a flag. Only the spelling of the key counts:
`401` and `"401"` name one entry, and a status finds the entry that is spelled like it. Reading goes
from member to member, and at every point the table is that of the members read so far.
-/

set_option autoImplicit false

namespace HttpWorkflow.ConditionTable

open Document (Data Format Scalar optionalText?)

/-- A key as a document has it. -/
inductive Key where
  | text (s : String)
  | whole (n : Int)
  | flag (b : Bool)
  deriving DecidableEq

namespace Key

/-- What a reader of documents takes the key for. -/
def scalar : Key → Scalar
  | text s => .text s
  | whole n => .int n
  | flag b => .flag b

def spelling : Key → String
  | text s => s
  | whole n => toString n
  | flag b => toString b

/-- Only a number and the text of its digits are spelled like a status. -/
theorem spelling_eq_toString_iff {k : Key} {status : Nat} :
    k.spelling = toString status ↔ k = .whole status ∨ k = .text (toString status) := by
  cases k with
  | text s => simp [spelling]
  | whole n =>
    have digits : toString status = (status : Int).repr := by simp [Int.repr_eq_if]
    simp only [spelling, digits, Int.toString_eq_repr, Int.repr_inj, whole.injEq, reduceCtorEq,
      or_false]
  | flag b =>
    have other : toString b ≠ toString status := by
      cases b with
      | false => exact ne_toString (c := 'f') (by decide) rfl status
      | true => exact ne_toString (c := 't') (by decide) rfl status
    simp only [spelling, other, reduceCtorEq, or_self]

end Key

/-- The document is a map with these members, in this order. -/
def Lists (d : Data) (members : List (Key × Data)) : Prop :=
  ∃ entries, d.entries? = some entries ∧
    List.Forall₂ (fun e m => e.1.scalar? = some m.1.scalar ∧ e.2 = m.2) entries members

def spelled (members : List (Key × Data)) : List (String × Data) :=
  members.map fun m => (m.1.spelling, m.2)

/-- What a member needs to be read: a text or null under `key`, and an entry elsewhere. -/
def Readable (format : Format) (m : String × Data) : Prop :=
  if m.1 = "key" then ∃ template, optionalText? (some m.2) = some template
  else ∃ e, ConditionEntry.ofData? format m.2 = some e

/-- The table of a list of members: the template that is given last, and the other names in the order
in which they come up first, each with the entry that it is given last. -/
structure Holds (format : Format) (members : List (String × Data)) (t : ConditionTable) : Prop where
  template : optionalText? (latest? members "key") = some t.key
  names : keys t.entries = ((keys members).filter (· ≠ "key")).eraseDups
  entries : ∀ name, name ≠ "key" →
    t.get? name = (latest? members name).bind (ConditionEntry.ofData? format)

section Reading

variable {format : Format} {members : List (String × Data)} {t t' : ConditionTable}

def addSpelled? (format : Format) (t : ConditionTable) (m : String × Data) :
    Option ConditionTable := add? format t (.text m.1, m.2)

theorem keyText?_of_scalar? {d : Data} {k : Key} (form : d.scalar? = some k.scalar) :
    keyText? d = some k.spelling := by
  cases k with
  | text | whole => simp only [keyText?, form, Key.scalar, Key.spelling]
  | flag b => cases b <;> simp only [keyText?, form, Key.scalar, Key.spelling] <;> rfl

theorem ofData?_lists {d : Data} {members : List (Key × Data)} (lists : Lists d members) :
    ofData? format d = (spelled members).foldlM (addSpelled? format) {} := by
  obtain ⟨entries, found, forms⟩ := lists
  have read (t : ConditionTable) :
      entries.foldlM (add? format) t = (spelled members).foldlM (addSpelled? format) t := by
    clear found
    -- The table is open, as it grows from one member to the next.
    induction forms generalizing t with
    | nil => rfl
    | @cons e m _ _ form _ ih =>
      have same : add? format t e = addSpelled? format t (m.1.spelling, m.2) := by
        simp only [addSpelled?, add?, keyText?_of_scalar? form.1, form.2]
        rfl
      rw [spelled, List.map_cons, List.foldlM_cons, List.foldlM_cons, same]
      exact congrArg _ (funext ih)
  rw [ofData?, found]
  exact read {}

theorem addSpelled?_template (d : Data) :
    addSpelled? format t ("key", d) =
      (optionalText? (some d)).map fun template => { t with key := template } := by
  rw [Option.map_eq_bind]
  rfl

theorem addSpelled?_entry {name : String} (other : name ≠ "key") (d : Data) :
    addSpelled? format t (name, d) = (ConditionEntry.ofData? format d).map (t.insert name) :=
  add?_text other d

theorem exists_addSpelled?_iff {m : String × Data} :
    (∃ t', addSpelled? format t m = some t') ↔ Readable format m := by
  obtain ⟨name, d⟩ := m
  by_cases template : name = "key"
  · subst template
    simp [addSpelled?_template, Readable]
  · simp [addSpelled?_entry template, Readable, template]

theorem exists_foldlM_iff :
    (∃ t', members.foldlM (addSpelled? format) t = some t') ↔ ∀ m ∈ members, Readable format m := by
  induction members generalizing t with
  | nil => simp
  | cons first rest ih =>
    -- Whether a member can be read does not depend on the table, so the rest may start from any.
    rw [List.forall_mem_cons, ← exists_addSpelled?_iff (t := t)]
    constructor
    · rintro ⟨t', read⟩
      obtain ⟨next, here, later⟩ := do_eq_some_iff.mp read
      exact ⟨⟨next, here⟩, ih.mp ⟨t', later⟩⟩
    · rintro ⟨⟨next, here⟩, others⟩
      obtain ⟨t', later⟩ := ih.mpr others
      exact ⟨t', do_eq_some_iff.mpr ⟨next, here, later⟩⟩

/-- One more member changes the template or the entry of its name, and nothing else. -/
theorem Holds.concat (holds : Holds format members t) {m : String × Data}
    (added : addSpelled? format t m = some t') : Holds format (members ++ [m]) t' := by
  obtain ⟨name, d⟩ := m
  have given (n : String) : latest? (members ++ [(name, d)]) n =
      if n = name then some d else latest? members n := latest?_concat members (name, d) n
  have listed : keys (members ++ [(name, d)]) = keys members ++ [name] := keys_concat members _
  by_cases template : name = "key"
  · subst template
    rw [addSpelled?_template] at added
    obtain ⟨text, read, rfl⟩ := Option.map_eq_some_iff.mp added
    refine ⟨?_, ?_, ?_⟩
    · rw [given, if_pos rfl, read]
    · rw [listed, List.filter_append]
      simpa using holds.names
    · intro n other
      rw [given, if_neg other]
      exact holds.entries n other
  · rw [addSpelled?_entry template] at added
    obtain ⟨e, read, rfl⟩ := Option.map_eq_some_iff.mp added
    refine ⟨?_, ?_, ?_⟩
    · rw [given, if_neg (Ne.symm template)]
      exact holds.template
    · have kept : ([name] : List String).filter (· ≠ "key") = [name] := by simp [template]
      rw [listed, List.filter_append, kept]
      exact keys_insertMember_of_eraseDups holds.names name e
    · intro n other
      have put : (t.insert name e).get? n = if n = name then some e else t.get? n :=
        lookup_insertMember t.entries name n e
      rw [given, put]
      split
      · rw [Option.bind_some, read]
      · exact holds.entries n other

theorem holds_of_foldlM (read : members.foldlM (addSpelled? format) {} = some t) :
    Holds format members t := by
  -- From the other end: the last member goes into the table of those before it.
  induction members using List.reverseRecOn generalizing t with
  | nil =>
    obtain rfl := Option.some.inj read
    exact ⟨rfl, rfl, fun _ _ => rfl⟩
  | append_singleton members m ih =>
    rw [List.foldlM_append] at read
    obtain ⟨before, earlier, last⟩ := do_eq_some_iff.mp read
    simp only [List.foldlM_cons, List.foldlM_nil, bind_pure] at last
    exact (ih earlier).concat last

theorem Holds.unique (holds : Holds format members t) (holds' : Holds format members t') :
    t = t' := by
  obtain ⟨key, entries⟩ := t
  obtain ⟨key', entries'⟩ := t'
  obtain rfl : key = key' := Option.some.inj (holds.template.symm.trans holds'.template)
  have names : keys entries = keys entries' := holds.names.trans holds'.names.symm
  have free : "key" ∉ keys entries := by
    rw [holds.names, List.mem_eraseDups]
    simp
  have same : entries = entries' := by
    refine eq_of_keys_of_lookup (holds.names ▸ nodup_eraseDups _) names fun name => ?_
    by_cases template : name = "key"
    · rw [template, lookup_eq_none_of_not_mem free, lookup_eq_none_of_not_mem (names ▸ free)]
    · exact (holds.entries name template).trans (holds'.entries name template).symm
  rw [same]

end Reading

/-- The members that a status finds are those that are written as its number or as its digits. -/
theorem latest?_spelled (members : List (Key × Data)) (status : Nat) :
    latest? (spelled members) (toString status) =
      (members.filter fun m => m.1 = .whole status ∨ m.1 = .text (toString status)).getLast?.map
        (·.2) := by
  have named : (members.filter fun m => m.1.spelling = toString status) =
      members.filter fun m => m.1 = .whole status ∨ m.1 = .text (toString status) := by
    simp only [Key.spelling_eq_toString_iff]
  rw [latest?, spelled, List.filter_map, List.getLast?_map, Option.map_map, ← named]
  rfl

/-- A table is read when each of its members can be read, and it does not matter how keys are
written: the template, the entries and what a status finds depend on the spelling only. -/
theorem ofData?_of_lists {format : Format} {d : Data} {members : List (Key × Data)}
    (lists : Lists d members) :
    ((∃ t, ofData? format d = some t) ↔ ∀ m ∈ spelled members, Readable format m) ∧
      ∀ t, ofData? format d = some t →
        Holds format (spelled members) t ∧
        (∀ t', Holds format (spelled members) t' → t' = t) ∧
        ∀ status : Nat,
          t.forStatus? status =
            (members.filter fun m =>
              m.1 = .whole status ∨ m.1 = .text (toString status)).getLast?.bind
                (fun m => ConditionEntry.ofData? format m.2) ∧
          (t.forStatus? status = none ↔
            ∀ m ∈ members, m.1 ≠ .whole status ∧ m.1 ≠ .text (toString status)) := by
  rw [ofData?_lists lists]
  refine ⟨exists_foldlM_iff, fun t read => ?_⟩
  have holds := holds_of_foldlM read
  refine ⟨holds, fun t' other => other.unique holds, fun status => ?_⟩
  have digits : toString status ≠ "key" := (ne_toString (c := 'k') (by decide) rfl status).symm
  have found := holds.entries (toString status) digits
  constructor
  · rw [latest?_spelled, Option.bind_map] at found
    exact found
  · -- The table was read, so a status that is listed has an entry: only an unlisted one has none.
    have readable := exists_foldlM_iff.mp ⟨t, read⟩
    have unlisted : t.forStatus? status = none ↔ toString status ∉ keys (spelled members) := by
      rw [← latest?_eq_none_iff]
      constructor
      · intro absent
        by_contra present
        obtain ⟨value, last⟩ := Option.ne_none_iff_exists'.mp present
        have entry := readable _ (mem_of_latest? last)
        rw [Readable, if_neg digits] at entry
        obtain ⟨e, kept⟩ := entry
        rw [last, Option.bind_some, kept] at found
        rw [forStatus?, found] at absent
        cases absent
      · intro absent
        rw [absent] at found
        exact found
    rw [unlisted, keys, spelled, List.map_map, List.mem_map]
    simp only [Function.comp_apply, Key.spelling_eq_toString_iff, not_exists, not_and, not_or]

def saying (words : String) : Data := .map [(.plain "message", .text words)]

/-- Keys of all kinds: two are spelled `401`, two `true`, and the template is given twice, of which
the first is null. -/
def mixedMembers : List (Key × Data) :=
  [(.text "key", .plain "~"), (.whole 401, saying "refused"), (.flag true, saying "yes"),
    (.text "default", saying "failed"), (.text "401", saying "unknown"),
    (.text "true", saying "true"), (.text "key", .text "{code}")]

/-- The document, in which scalars without quotes stand for numbers, flags and texts. -/
def mixedDocument : Data :=
  .map [(.plain "key", .plain "~"), (.plain "0x191", saying "refused"),
    (.plain "True", saying "yes"), (.text "default", saying "failed"),
    (.text "401", saying "unknown"), (.text "true", saying "true"), (.text "key", .text "{code}")]

theorem mixed_lists : Lists mixedDocument mixedMembers :=
  ⟨_, rfl, .cons ⟨by cbv, rfl⟩ (.cons ⟨rfl, rfl⟩ (.cons ⟨by cbv, rfl⟩ (.cons ⟨rfl, rfl⟩
    (.cons ⟨rfl, rfl⟩ (.cons ⟨rfl, rfl⟩ (.cons ⟨rfl, rfl⟩ .nil))))))⟩

theorem mixed_read :
    Lists mixedDocument mixedMembers ∧
      ∃ t, ofData? .yaml mixedDocument = some t ∧ t.key = some "{code}" ∧
        keys t.entries = ["401", "true", "default"] ∧
        t.forStatus? 401 = some { message := some (.string "unknown") } ∧
        t.forStatus? 404 = none := by
  obtain ⟨t, read⟩ : ∃ t, ofData? .yaml mixedDocument = some t := ⟨_, rfl⟩
  obtain ⟨holds, _, statuses⟩ := (ofData?_of_lists mixed_lists).2 t read
  have template : some (some "{code}") = some t.key := holds.template
  have names : keys t.entries = ["401", "true", "default"] := holds.names.trans (by cbv)
  refine ⟨mixed_lists, t, read, (Option.some.inj template).symm, names, ?_, ?_⟩
  · exact (statuses 401).1.trans (by cbv)
  · exact (statuses 404).1.trans (by cbv)

end HttpWorkflow.ConditionTable
