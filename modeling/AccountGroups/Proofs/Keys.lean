import AccountGroups.Proofs.Handles

/-!
# Keys of sources

A key is the names of a source with marks between them. Names that have such marks in them can make
the keys of two sources equal. It is told which sources these are. Sources with plain names are none
of them, and canonical sources have plain names.
-/

namespace AccountGroups

open Token

/-- Handles that are not empty and have no commas can be told apart when they are joined. -/
theorem HandleSet.eq_of_intercalate {a b : HandleSet}
    (ha : ∀ h ∈ a, h ≠ "" ∧ ',' ∉ h.toList) (hb : ∀ h ∈ b, h ≠ "" ∧ ',' ∉ h.toList)
    (h : ",".intercalate a.toList = ",".intercalate b.toList) : a = b := by
  have hsplit := congrArg (fun s : String => (s.split ',').toList.map String.Slice.copy) h
  have hsingle : "," = String.singleton ',' := rfl
  rw [hsingle] at hsplit
  simp only [String.toList_split_intercalate fun w hw => (ha w hw).2,
    String.toList_split_intercalate fun w hw => (hb w hw).2] at hsplit
  have hempty {set : HandleSet} (hset : ∀ h ∈ set, h ≠ "" ∧ ',' ∉ h.toList) :
      set.toList ≠ [""] := by
    intro he
    have hmem : "" ∈ set := by simp [Ascending.mem_iff, he]
    exact (hset _ hmem).1 rfl
  have hlist : a.toList = b.toList := by
    by_cases hna : a.toList = [] <;> by_cases hnb : b.toList = []
    · rw [hna, hnb]
    · rw [if_pos hna, if_neg hnb] at hsplit
      exact (hempty hb hsplit.symm).elim
    · rw [if_neg hna, if_pos hnb] at hsplit
      exact (hempty ha hsplit).elim
    · rwa [if_neg hna, if_neg hnb] at hsplit
  exact Ascending.ext fun x => by rw [Ascending.mem_iff, Ascending.mem_iff, hlist]

/-- Sets of barewords have one key only when they are the same. -/
theorem HandleSet.key_eq_iff {a b : HandleSet} (ha : ∀ h ∈ a, IsBareword h)
    (hb : ∀ h ∈ b, IsBareword h) : a.key = b.key ↔ a = b := by
  constructor
  · intro h
    rw [key, key, joined, joined, Text.braced_inj] at h
    exact eq_of_intercalate (fun w hw => ⟨(ha w hw).1, not_mem_of_isBareword (ha w hw) rfl⟩)
      (fun w hw => ⟨(hb w hw).1, not_mem_of_isBareword (hb w hw) rfl⟩) h
  · rintro rfl
    rfl

theorem eq_append_of_slash {body suffix owner list : String} (hs : '/' ∉ suffix.toList)
    (h : body ++ suffix = owner ++ "/" ++ list) :
    ∃ rest, body = owner ++ "/" ++ rest ∧ list = rest ++ suffix := by
  have hlist : body.toList ++ suffix.toList = owner.toList ++ '/' :: list.toList := by
    simpa using congrArg String.toList h
  rcases List.append_eq_append_iff.1 hlist with ⟨cs, -, hcs⟩ | ⟨cs, hbody, hcs⟩
  · exact (hs (by simp [hcs])).elim
  · cases cs with
    | nil =>
      rw [List.nil_append] at hcs
      exact (hs (hcs ▸ List.mem_cons_self)).elim
    | cons c cs =>
      obtain ⟨rfl, hrest⟩ := List.cons.inj hcs
      refine ⟨String.ofList cs, ?_, ?_⟩
      · apply String.toList_inj.1
        simpa using hbody
      · apply String.toList_inj.1
        simpa using hrest

/-- Two ways to cut a text at a slash. -/
theorem cut_cases {owner list owner' list' : String}
    (h : owner ++ "/" ++ list = owner' ++ "/" ++ list') :
    (owner = owner' ∧ list = list') ∨
      (∃ middle, owner' = owner ++ "/" ++ middle ∧ list = middle ++ "/" ++ list') ∨
      ∃ middle, owner = owner' ++ "/" ++ middle ∧ list' = middle ++ "/" ++ list := by
  have hlist : owner.toList ++ '/' :: list.toList = owner'.toList ++ '/' :: list'.toList := by
    simpa using congrArg String.toList h
  have hcut {a b c d : String} {cs : List Char} (hc : c.toList = a.toList ++ cs)
      (hcs : '/' :: b.toList = cs ++ '/' :: d.toList) :
      (a = c ∧ b = d) ∨ ∃ middle, c = a ++ "/" ++ middle ∧ b = middle ++ "/" ++ d := by
    cases cs with
    | nil =>
      refine .inl ⟨String.toList_inj.1 (by simpa using hc.symm), String.toList_inj.1 ?_⟩
      exact (List.cons.inj hcs).2
    | cons k cs =>
      obtain ⟨rfl, hrest⟩ := List.cons.inj hcs
      refine .inr ⟨String.ofList cs, ?_, ?_⟩
      · apply String.toList_inj.1
        simpa using hc
      · apply String.toList_inj.1
        simpa using hrest
  rcases List.append_eq_append_iff.1 hlist with ⟨cs, hc, hcs⟩ | ⟨cs, hc, hcs⟩
  · exact (hcut hc hcs).imp_right .inl
  · rcases hcut hc hcs with ⟨ho, hl⟩ | hmiddle
    · exact .inl ⟨ho.symm, hl.symm⟩
    · exact .inr (.inr hmiddle)

namespace Source

/-- Two sources with one key that are not the same, told by the marks in their names. -/
inductive Collides : Source → Source → Prop where
  | followers (owner rest : String) :
    Collides (.followers (owner ++ "/" ++ rest)) (.members owner (rest ++ ".followers"))
  | following (owner rest : String) :
    Collides (.following (owner ++ "/" ++ rest)) (.members owner (rest ++ ".following"))
  | members (owner middle list : String) :
    Collides (.members (owner ++ "/" ++ middle) list) (.members owner (middle ++ "/" ++ list))
  | handles {set : HandleSet} {first last : String}
    (joined : ",".intercalate set.toList = first ++ "/" ++ last) :
    Collides (.handles set) (.members (.singleton '{' ++ first) (last ++ .singleton '}'))
  | joined {set other : HandleSet} (ne : set ≠ other)
    (joined : ",".intercalate set.toList = ",".intercalate other.toList) :
    Collides (.handles set) (.handles other)

theorem Collides.key_eq {s t : Source} (h : s.Collides t) : s.key = t.key := by
  cases h with
  | followers | following | members => simp only [key, String.append_assoc]
  | handles joined =>
    simp only [key, HandleSet.key, HandleSet.joined, Text.braced, joined, String.append_assoc]
  | joined ne joined => simp only [key, HandleSet.key, HandleSet.joined, joined]

theorem Collides.ne {s t : Source} (h : s.Collides t) : s ≠ t := by
  cases h with
  | followers | following | handles => exact nofun
  | members owner middle list =>
    intro he
    have hlength := congrArg String.length (Source.members.inj he).1
    simp only [String.length_append] at hlength
    have hslash : "/".length = 1 := rfl
    omega
  | joined ne => exact fun he => ne (Source.handles.inj he)

theorem collides_of_members {s : Source} {owner list : String}
    (h : s.key = owner ++ "/" ++ list) (hs : ∀ owner list, s ≠ .members owner list) :
    s.Collides (.members owner list) := by
  cases s with
  | followers handle =>
    obtain ⟨rest, rfl, rfl⟩ := eq_append_of_slash (by decide) h
    exact .followers owner rest
  | following handle =>
    obtain ⟨rest, rfl, rfl⟩ := eq_append_of_slash (by decide) h
    exact .following owner rest
  | members o l => exact (hs o l rfl).elim
  | handles set =>
    obtain ⟨rest, hbody, rfl⟩ := eq_append_of_slash (by decide) h
    have hlist : '{' :: (",".intercalate set.toList).toList =
        owner.toList ++ '/' :: rest.toList := by
      simpa using congrArg String.toList hbody
    cases hc : owner.toList with
    | nil =>
      rw [hc] at hlist
      cases (List.cons.inj hlist).1
    | cons c cs =>
      rw [hc] at hlist
      obtain ⟨rfl, hrest⟩ := List.cons.inj hlist
      obtain rfl : owner = .singleton '{' ++ String.ofList cs :=
        String.toList_inj.1 (by simpa using hc)
      refine .handles (String.toList_inj.1 ?_)
      simpa using hrest

/-- The last letter of the key, unless it is a name's. -/
def last? : Source → Option Char
  | followers _ => some 's'
  | following _ => some 'g'
  | members .. => none
  | handles _ => some '}'

theorem getLast?_key {s : Source} {c : Char} (h : s.last? = some c) :
    s.key.toList.getLast? = some c := by
  cases s with
  | followers | following =>
    cases h
    simp [key]
  | members => cases h
  | handles =>
    cases h
    simp [key, HandleSet.key, HandleSet.joined, List.getLast?_cons]

theorem last?_eq {s t : Source} {c d : Char} (h : s.key = t.key) (hs : s.last? = some c)
    (ht : t.last? = some d) : c = d := by
  have hlast := getLast?_key hs
  rw [h, getLast?_key ht] at hlast
  exact (Option.some.inj hlast).symm

/-- Two sources have one key only when they are the same or collide. -/
theorem key_eq_iff {s t : Source} :
    s.key = t.key ↔ s = t ∨ s.Collides t ∨ t.Collides s := by
  constructor
  · intro h
    cases s with
    | followers handle =>
      cases t with
      | followers other =>
        obtain rfl := (String.append_left_inj _).1 h
        exact .inl rfl
      | members => exact .inr (.inl (collides_of_members h nofun))
      | following | handles => exact absurd (last?_eq h rfl rfl) (by decide)
    | following handle =>
      cases t with
      | following other =>
        obtain rfl := (String.append_left_inj _).1 h
        exact .inl rfl
      | members => exact .inr (.inl (collides_of_members h nofun))
      | followers | handles => exact absurd (last?_eq h rfl rfl) (by decide)
    | members owner list =>
      cases t with
      | members owner' list' =>
        rcases cut_cases h with ⟨rfl, rfl⟩ | ⟨middle, rfl, rfl⟩ | ⟨middle, rfl, rfl⟩
        · exact .inl rfl
        · exact .inr (.inr (.members owner middle list'))
        · exact .inr (.inl (.members owner' middle list))
      | followers | following | handles =>
        exact .inr (.inr (collides_of_members h.symm nofun))
    | handles set =>
      cases t with
      | handles other =>
        have hjoined := (String.append_right_inj _).1 ((String.append_left_inj _).1 h)
        by_cases hset : set = other
        · exact .inl (congrArg handles hset)
        · exact .inr (.inl (.joined hset hjoined))
      | members => exact .inr (.inl (collides_of_members h nofun))
      | followers | following => exact absurd (last?_eq h rfl rfl) (by decide)
  · rintro (rfl | h | h)
    · rfl
    · exact h.key_eq
    · exact h.key_eq.symm

/-- Handles without slashes. Those of a set are not empty and have no commas either. The name of a
list may be any text. -/
def Plain : Source → Prop
  | followers handle | following handle => '/' ∉ handle.toList
  | members owner _ => '/' ∉ owner.toList
  | handles set => ∀ h ∈ set, h ≠ "" ∧ ',' ∉ h.toList ∧ '/' ∉ h.toList

theorem mem_of_mem_intercalate {c d : Char} {words : List (List Char)} (hd : d ≠ c)
    (h : d ∈ [c].intercalate words) : ∃ w ∈ words, d ∈ w := by
  induction words with
  | nil => cases h
  | cons w words ih =>
    cases words with
    | nil => exact ⟨w, List.mem_cons_self, by simpa using h⟩
    | cons v words =>
      rw [List.intercalate_cons_cons, List.append_assoc] at h
      rcases List.mem_append.1 h with hw | h
      · exact ⟨w, List.mem_cons_self, hw⟩
      · rcases List.mem_cons.1 h with rfl | h
        · exact (hd rfl).elim
        · obtain ⟨u, hu, hmem⟩ := ih h
          exact ⟨u, List.mem_cons_of_mem _ hu, hmem⟩

theorem slash_mem_of_joined {set : HandleSet} {first last : String}
    (h : ",".intercalate set.toList = first ++ "/" ++ last) : ∃ w ∈ set, '/' ∈ w.toList := by
  have hmem : '/' ∈ (",".intercalate set.toList).toList := by simp [h]
  rw [String.toList_intercalate] at hmem
  obtain ⟨cs, hcs, hslash⟩ := mem_of_mem_intercalate (by decide) hmem
  obtain ⟨w, hw, rfl⟩ := List.mem_map.1 hcs
  exact ⟨w, hw, hslash⟩

theorem Collides.not_plain {s t : Source} (h : s.Collides t) (ht : t.Plain) : ¬ s.Plain := by
  intro hs
  cases h with
  | followers | following | members => exact hs (by simp)
  | handles joined =>
    obtain ⟨w, hw, hslash⟩ := slash_mem_of_joined joined
    exact (hs w hw).2.2 hslash
  | joined ne joined =>
    exact ne (HandleSet.eq_of_intercalate (fun w hw => ⟨(hs w hw).1, (hs w hw).2.1⟩)
      (fun w hw => ⟨(ht w hw).1, (ht w hw).2.1⟩) joined)

theorem Plain.eq_of_key {s t : Source} (hs : s.Plain) (ht : t.Plain) (h : s.key = t.key) :
    s = t := by
  rcases key_eq_iff.1 h with he | hc | hc
  · exact he
  · exact (hc.not_plain ht hs).elim
  · exact (hc.not_plain hs ht).elim

theorem Canonical.plain {s : Source} (h : s.Canonical) : s.Plain := by
  cases s with
  | followers | following => exact not_mem_of_isBareword h.1 rfl
  | members => exact not_mem_of_isBareword h.1.1 rfl
  | handles set =>
    intro w hw
    have hword := (h w hw).1
    exact ⟨hword.1, not_mem_of_isBareword hword rfl, not_mem_of_isBareword hword rfl⟩

/-- Canonical sources with one key are equal. -/
theorem Canonical.eq_of_key {s t : Source} (hs : s.Canonical) (ht : t.Canonical)
    (h : s.key = t.key) : s = t :=
  hs.plain.eq_of_key ht.plain h

end Source

end AccountGroups
