import IntelPt.Lib.CString

/-! GatherConfigData of Main.c. A line is what one fgets returns, its key and its value are the
first two tokens strtok finds in it. A value is copied with its terminating zero into a block
that has no room for that. -/
namespace IntelPt.UserModeApp
open CString

def bufferLength : Nat := 255

/-- fgets leaves room for the terminating zero. -/
def configLines (file : List Char) : List (List Char) := readLines (bufferLength - 2) file

def delimiters : List Char := ['=', '\n']

def bootstrapServerKey : List Char := "bootstrap_server".toList
def topicNameKey : List Char := "topic_name".toList

/-- TrimString; `none` is NULL as an argument and a fault as a result. -/
def trimString : Option (List Char) → Option (List Char)
  | none => none
  | some string => some (string.dropWhile (· = ' '))

/-- The key and the value of a line; `none` where TrimString is called with NULL. -/
def parseLine (buffer : List Char) : Option (List Char × List Char) :=
  let (token, rest) := strtok delimiters (cString buffer)
  match trimString token with
  | none => none
  | some key =>
    match trimString (strtok delimiters rest).1 with
    | none => none
    | some value => some (key, value)

structure HeapCopy where
  allocated : Nat
  written : Nat
  deriving DecidableEq, Repr

structure ConfigState where
  bootstrapServer : Option (List Char) := none
  kafkaTopicName : Option (List Char) := none
  mallocs : Nat := 0
  copies : List HeapCopy := []
  deriving DecidableEq, Repr

def saveValue (malloc : Nat → Bool) (value : List Char)
    (set : ConfigState → List Char → ConfigState) (st : ConfigState) : ConfigState :=
  let allocated := malloc st.mallocs
  let st := { st with mallocs := st.mallocs + 1 }
  if allocated then
    set { st with copies := st.copies ++ [⟨value.length, value.length + 1⟩] } value
  else st

def setBootstrapServer (st : ConfigState) (value : List Char) : ConfigState :=
  { st with bootstrapServer := some value }

def setKafkaTopicName (st : ConfigState) (value : List Char) : ConfigState :=
  { st with kafkaTopicName := some value }

/-- The loop body; `none` if it dereferences NULL. -/
def gatherLine (malloc : Nat → Bool) (st : ConfigState) (buffer : List Char) :
    Option ConfigState :=
  match parseLine buffer with
  | none => none
  | some (key, value) =>
    if strstr key bootstrapServerKey then some (saveValue malloc value setBootstrapServer st)
    else if strstr key topicNameKey then some (saveValue malloc value setKafkaTopicName st)
    else some st

def gatherConfigData (malloc : Nat → Bool) (file : List Char) (st : ConfigState) :
    Option ConfigState :=
  (configLines file).foldlM (gatherLine malloc) st

def chosenValue (chosen : List Char → Bool) (line : List Char) : Option (List Char) :=
  match parseLine line with
  | some (key, value) => if chosen key then some value else none
  | none => none

def lastValue (chosen : List Char → Bool) (lines : List (List Char))
    (before : Option (List Char)) : Option (List Char) :=
  (lines.filterMap (chosenValue chosen)).getLast?.or before

/-- Whatever is configured before, NULL is not dereferenced, no copy is larger than its block,
and the strings are those of the last lines with their keys. -/
def ConfigGathered (malloc : Nat → Bool) (file : List Char) : Prop :=
  ∀ bootstrapServer kafkaTopicName : Option (List Char),
    ∃ st, gatherConfigData malloc file ⟨bootstrapServer, kafkaTopicName, 0, []⟩ = some st ∧
      (∀ copy ∈ st.copies, copy.written ≤ copy.allocated) ∧
      st.bootstrapServer =
        lastValue (strstr · bootstrapServerKey) (configLines file) bootstrapServer ∧
      st.kafkaTopicName = lastValue (strstr · topicNameKey) (configLines file) kafkaTopicName

def IdleLine (line : List Char) : Prop :=
  ∃ key value, parseLine line = some (key, value) ∧
    strstr key bootstrapServerKey = false ∧ strstr key topicNameKey = false

/-! A copy that was made is one byte too long. -/

def Overrun (st : ConfigState) : Prop := ∃ copy ∈ st.copies, copy.allocated < copy.written

def SameConfig (st st' : ConfigState) : Prop :=
  st'.bootstrapServer = st.bootstrapServer ∧ st'.kafkaTopicName = st.kafkaTopicName

theorem saveValue_cases (malloc : Nat → Bool) (value : List Char)
    (set : ConfigState → List Char → ConfigState) (hset : ∀ st v, (set st v).copies = st.copies)
    (st : ConfigState) :
    (Overrun st → Overrun (saveValue malloc value set st)) ∧
      (Overrun (saveValue malloc value set st) ∨
        SameConfig st (saveValue malloc value set st)) := by
  simp only [saveValue]
  split
  · have hover : ∀ copies : List HeapCopy, Overrun (set { st with
        mallocs := st.mallocs + 1
        copies := copies ++ [⟨value.length, value.length + 1⟩] } value) := by
      intro copies
      refine ⟨⟨value.length, value.length + 1⟩, ?_, Nat.lt_succ_self _⟩
      rw [hset]
      exact List.mem_append_right _ List.mem_cons_self
    exact ⟨fun _ => hover st.copies, Or.inl (hover st.copies)⟩
  · exact ⟨fun h => h, Or.inr ⟨rfl, rfl⟩⟩

theorem gatherLine_cases {malloc : Nat → Bool} {st st' : ConfigState} {line : List Char}
    (h : gatherLine malloc st line = some st') :
    parseLine line ≠ none ∧ (Overrun st → Overrun st') ∧ (Overrun st' ∨ SameConfig st st') := by
  simp only [gatherLine] at h
  split at h
  · cases h
  · rename_i key value hparse
    refine ⟨by simp [hparse], ?_⟩
    split at h
    · cases h
      exact saveValue_cases malloc value setBootstrapServer (fun _ _ => rfl) st
    · split at h
      · cases h
        exact saveValue_cases malloc value setKafkaTopicName (fun _ _ => rfl) st
      · cases h
        exact ⟨fun h => h, Or.inr ⟨rfl, rfl⟩⟩

theorem foldlM_gatherLine_cases {malloc : Nat → Bool} {lines : List (List Char)} :
    ∀ {st st' : ConfigState}, lines.foldlM (gatherLine malloc) st = some st' →
      (∀ line ∈ lines, parseLine line ≠ none) ∧ (Overrun st → Overrun st') ∧
        (Overrun st' ∨ SameConfig st st') := by
  induction lines with
  | nil =>
    intro st st' h
    cases h
    exact ⟨fun _ hl => absurd hl List.not_mem_nil, fun h => h, Or.inr ⟨rfl, rfl⟩⟩
  | cons line lines ih =>
    intro st st' h
    rw [List.foldlM_cons, Option.bind_eq_bind, Option.bind_eq_some_iff] at h
    obtain ⟨st₁, hline, hlines⟩ := h
    obtain ⟨hparse, hover, hsame⟩ := gatherLine_cases hline
    obtain ⟨hparses, hovers, hsames⟩ := ih hlines
    refine ⟨List.forall_mem_cons.mpr ⟨hparse, hparses⟩, fun ho => hovers (hover ho), ?_⟩
    obtain ho | hs := hsame
    · exact Or.inl (hovers ho)
    · exact hsames.imp_right fun hs' => ⟨hs'.1.trans hs.1, hs'.2.trans hs.2⟩

theorem foldlM_gatherLine_idle {malloc : Nat → Bool} {lines : List (List Char)}
    (h : ∀ line ∈ lines, IdleLine line) (st : ConfigState) :
    lines.foldlM (gatherLine malloc) st = some st := by
  induction lines with
  | nil => rfl
  | cons line lines ih =>
    obtain ⟨key, value, hparse, hserver, htopic⟩ := h line List.mem_cons_self
    have hline : gatherLine malloc st line = some st := by
      simp [gatherLine, hparse, hserver, htopic]
    rw [List.foldlM_cons, hline]
    exact ih fun l hl => h l (List.mem_cons_of_mem line hl)

theorem lastValue_of_none {chosen : List Char → Bool} {lines : List (List Char)}
    (h : ∀ line ∈ lines, chosenValue chosen line = none) (before : Option (List Char)) :
    lastValue chosen lines before = before := by
  have hnil : lines.filterMap (chosenValue chosen) = [] := List.filterMap_eq_nil_iff.mpr h
  rw [lastValue, hnil]
  rfl

theorem chosenValue_eq_none {chosen : List Char → Bool} {lines : List (List Char)}
    (h : lastValue chosen lines none = none) : ∀ line ∈ lines, chosenValue chosen line = none := by
  rw [lastValue, Option.or_none, List.getLast?_eq_none_iff] at h
  exact List.filterMap_eq_nil_iff.mp h

theorem chosenValue_idle {chosen : List Char → Bool} {line key value : List Char}
    (hparse : parseLine line = some (key, value)) :
    chosenValue chosen line = none ↔ chosen key = false := by
  simp [chosenValue, hparse]

theorem configGathered_iff (malloc : Nat → Bool) (file : List Char) :
    ConfigGathered malloc file ↔ ∀ line ∈ configLines file, IdleLine line := by
  constructor
  · intro h line hline
    obtain ⟨st, hrun, hcopies, hserver, htopic⟩ := h none none
    obtain ⟨hparses, -, hover | hsame⟩ := foldlM_gatherLine_cases hrun
    · obtain ⟨copy, hmem, hlt⟩ := hover
      have hle := hcopies copy hmem
      omega
    · rw [hsame.1] at hserver
      rw [hsame.2] at htopic
      obtain ⟨⟨key, value⟩, hparse⟩ := Option.ne_none_iff_exists'.mp (hparses line hline)
      exact ⟨key, value, hparse,
        (chosenValue_idle hparse).mp (chosenValue_eq_none hserver.symm line hline),
        (chosenValue_idle hparse).mp (chosenValue_eq_none htopic.symm line hline)⟩
  · intro h bootstrapServer kafkaTopicName
    refine ⟨_, foldlM_gatherLine_idle h _, fun _ hm => absurd hm List.not_mem_nil, ?_, ?_⟩
    · refine (lastValue_of_none (fun line hline => ?_) _).symm
      obtain ⟨key, value, hparse, hserver, -⟩ := h line hline
      exact (chosenValue_idle hparse).mpr hserver
    · refine (lastValue_of_none (fun line hline => ?_) _).symm
      obtain ⟨key, value, hparse, -, htopic⟩ := h line hline
      exact (chosenValue_idle hparse).mpr htopic

/-! The strings themselves, where no block is missing and no token. -/

theorem lastValue_cons (chosen : List Char → Bool) (line : List Char) (lines : List (List Char))
    (before : Option (List Char)) : lastValue chosen (line :: lines) before =
      lastValue chosen lines ((chosenValue chosen line).or before) := by
  simp only [lastValue, List.filterMap_cons]
  cases chosenValue chosen line with
  | none => rfl
  | some value => cases h : (lines.filterMap (chosenValue chosen)).getLast? <;>
      simp [List.getLast?_cons, h]

def isTopicNameKey (key : List Char) : Bool :=
  !strstr key bootstrapServerKey && strstr key topicNameKey

theorem gatherLine_values {malloc : Nat → Bool} (hm : ∀ n, malloc n = true) {line : List Char}
    (hl : parseLine line ≠ none) (st : ConfigState) : ∃ st', gatherLine malloc st line = some st' ∧
      st'.bootstrapServer =
        (chosenValue (strstr · bootstrapServerKey) line).or st.bootstrapServer ∧
      st'.kafkaTopicName = (chosenValue isTopicNameKey line).or st.kafkaTopicName := by
  obtain ⟨⟨key, value⟩, hparse⟩ := Option.ne_none_iff_exists'.mp hl
  by_cases hserver : strstr key bootstrapServerKey = true
  · refine ⟨saveValue malloc value setBootstrapServer st, ?_, ?_, ?_⟩
    · simp [gatherLine, hparse, hserver]
    · simp [saveValue, hm, setBootstrapServer, chosenValue, hparse, hserver]
    · simp [saveValue, hm, setBootstrapServer, chosenValue, isTopicNameKey, hparse, hserver]
  · by_cases htopic : strstr key topicNameKey = true
    · refine ⟨saveValue malloc value setKafkaTopicName st, ?_, ?_, ?_⟩
      · simp [gatherLine, hparse, hserver, htopic]
      · simp [saveValue, hm, setKafkaTopicName, chosenValue, hparse, hserver]
      · simp [saveValue, hm, setKafkaTopicName, chosenValue, isTopicNameKey, hparse, hserver,
          htopic]
    · refine ⟨st, ?_, ?_, ?_⟩
      · simp [gatherLine, hparse, hserver, htopic]
      · simp [chosenValue, hparse, hserver]
      · simp [chosenValue, isTopicNameKey, hparse, htopic]

/-- A key with both names in it is one of the bootstrap server only. -/
theorem gatherConfigData_values {malloc : Nat → Bool} (hm : ∀ n, malloc n = true)
    {file : List Char} (hl : ∀ line ∈ configLines file, parseLine line ≠ none)
    (st : ConfigState) : ∃ st', gatherConfigData malloc file st = some st' ∧
      st'.bootstrapServer =
        lastValue (strstr · bootstrapServerKey) (configLines file) st.bootstrapServer ∧
      st'.kafkaTopicName = lastValue isTopicNameKey (configLines file) st.kafkaTopicName := by
  rw [gatherConfigData]
  generalize configLines file = lines at hl ⊢
  induction lines generalizing st with
  | nil => exact ⟨st, rfl, rfl, rfl⟩
  | cons line lines ih =>
    obtain ⟨st₁, hline, hserver, htopic⟩ := gatherLine_values hm (hl line List.mem_cons_self) st
    obtain ⟨st', hrun, hservers, htopics⟩ :=
      ih st₁ fun l hl' => hl l (List.mem_cons_of_mem line hl')
    rw [List.foldlM_cons, hline, lastValue_cons, lastValue_cons, ← hserver, ← htopic]
    exact ⟨st', hrun, hservers, htopics⟩

def configCfg : List Char :=
  "bootstrap_server = localhost:9092\ntopic_name = ana_are_mere".toList

theorem not_configGathered_configCfg : ¬ ∀ (malloc : Nat → Bool) (file : List Char),
    ConfigGathered malloc file := by
  intro h
  obtain ⟨st, hrun, hcopies, -⟩ := h (fun _ => true) configCfg none none
  have hst : gatherConfigData (fun _ => true) configCfg ⟨none, none, 0, []⟩ =
      some ⟨some "localhost:9092".toList, some "ana_are_mere".toList, 2, [⟨14, 15⟩, ⟨12, 13⟩]⟩ := by
    decide +kernel
  cases hrun.symm.trans hst
  have hle := hcopies ⟨14, 15⟩ List.mem_cons_self
  simp at hle

end IntelPt.UserModeApp
