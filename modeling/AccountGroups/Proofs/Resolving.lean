import AccountGroups.Proofs.ComposedRuns
import AccountGroups.Proofs.Failures
import AccountGroups.Proofs.HandleFiles
import AccountGroups.Proofs.Lookup
import AccountGroups.Proofs.Reporting

/-!
# Handles that are resolved

The handles of a set literal are looked up in a snapshot, which gives ids, and the ids of the group
are looked up again for the report. Both look-ups take the first user that fits. So the line of a
handle is not always this handle: it is that of the first user with the same id.
-/

namespace AccountGroups

open Text Token

theorem Expr.read_compl_setLiteral {files : Files} {words : List String}
    (hw : ∀ w ∈ words, IsBareword w) :
    read files ("~" ++ setLiteral words) = .ok (compl (source (.ofHandles words))) := by
  have hforms : Forms files .expression ('~' :: (setLiteral words).toList)
      (compl (source (.ofHandles words))) 1 := (forms_setLiteral hw).tilde.operand
  exact Forms.read_of_le (by simpa using hforms) (by decide)

section Single

variable {σ : Type} {c : Client σ} {client next : σ} {e : Expr} {s : Source}
variable {ids : List AccountId}

/-- Loading one source files its ids under its key. -/
theorem load_of_single (hs : e.sources = [s]) {schedule : Schedule}
    (finished : ((Loading.start e client).moves c (schedule e)).Finished)
    (hfetch : c.fetch s client = (.ok ids, next)) (workers : Workers) :
    (load c workers schedule e client).result = .ok (KeyMap.empty.insert s.key ids) ∧
      (load c workers schedule e client).client = next := by
  have hfirsts : firsts e.sources = [s] := by
    rw [hs]
    rfl
  obtain ⟨order, hperm, h, -⟩ := finished.describes
  obtain rfl : order = [s] := List.perm_singleton.1 (hfirsts ▸ hperm)
  have hmade : c.fetchAll client [s] = ([(s, .ok ids)], next) := by
    simp [Client.fetchAll, hfetch]
  have htasks : ((Loading.start e client).moves c (schedule e)).registry.tasks =
      [⟨s.key, s, some (.ok ids)⟩] := by
    rw [h.tasks, hfirsts, hmade]
    simp [taskAfter]
  refine ⟨?_, h.state.trans (congrArg Prod.snd hmade)⟩
  rw [load, Registry.results, htasks]
  rfl

theorem evaluate_source_insert (fetched : Fetched) (s : Source) (ids : List AccountId) :
    (Expr.source s).evaluate (fetched.insert s.key ids) = .ok (.ofIds ids) := by
  simp [Expr.evaluate]

end Single

namespace Snapshot

variable {g : Snapshot}

theorem fetch_handles (g : Snapshot) (set : HandleSet) :
    client.fetch (.handles set) g = (.ok ((set.toList.filterMap g.userNamed).map User.id), g) := by
  rw [Client.fetch]
  split
  · next hempty =>
    have hnone : set.toList = [] := List.isEmpty_iff.1 hempty
    rw [hnone]
    rfl
  · rfl

theorem userNamed_lowercase {w : String} (hw : IsBareword w) :
    g.userNamed (lowercase w) = g.userNamed w := by
  have hsame (handle : String) : sameLetters handle (lowercase w) = sameLetters handle w := by
    have htwice : Char.toLower ∘ Char.toLower = Char.toLower :=
      funext Char.toLower_toLower_eq_toLower
    rw [sameLetters, sameLetters, lowercase_of_isBareword hw, String.toList_ofList, List.map_map,
      htwice]
  simp only [userNamed, hsame]

theorem mem_of_userNamed {w : String} {u : User} (h : g.userNamed w = some u) :
    u ∈ g.users ∧ sameLetters u.handle w = true :=
  ⟨List.mem_of_find?_eq_some h, List.find?_some (p := fun v : User => sameLetters v.handle w) h⟩

theorem mem_of_userWithId {id : AccountId} {u : User} (h : g.userWithId id = some u) :
    u ∈ g.users ∧ u.id = id :=
  ⟨List.mem_of_find?_eq_some h,
    beq_iff_eq.1 (List.find?_some (p := fun v : User => v.id == id) h)⟩

/-- The id of a user is found, if not always with the same user. -/
theorem exists_userWithId {u : User} (hu : u ∈ g.users) : ∃ v, g.userWithId u.id = some v :=
  Option.isSome_iff_exists.1 (List.find?_isSome.2 ⟨u, hu, beq_self_eq_true u.id⟩)

/-- Ids that are all found are found one by one. -/
theorem map_id_filterMap_userWithId {ids : List AccountId}
    (h : ∀ id ∈ ids, ∃ u, g.userWithId id = some u) :
    (ids.filterMap g.userWithId).map User.id = ids := by
  induction ids with
  | nil => rfl
  | cons id ids ih =>
    obtain ⟨u, hu⟩ := h id List.mem_cons_self
    rw [List.filterMap_cons_some hu, List.map_cons, (mem_of_userWithId hu).2,
      ih fun i hi => h i (List.mem_cons_of_mem _ hi)]

/-- The accounts that a group lists, as far as the snapshot knows them. -/
def usersOf (g : Snapshot) (group : Group) : List User :=
  group.listed.toList.filterMap g.userWithId

/-- When all ids of a group are found, they are found one by one. -/
theorem map_id_usersOf {group : Group}
    (h : ∀ id ∈ group.listed, ∃ u, g.userWithId id = some u) :
    (g.usersOf group).map User.id = group.listed.toList :=
  map_id_filterMap_userWithId h

theorem userWithId_of_mem_usersOf {group : Group} {u : User} (hu : u ∈ g.usersOf group) :
    g.userWithId u.id = some u := by
  obtain ⟨id, -, hid⟩ := List.mem_filterMap.1 hu
  rwa [(mem_of_userWithId hid).2]

theorem resolveUsers_client (g : Snapshot) (group : Group) :
    resolveUsers client group g = (.ok (g.usersOf group), g) := by
  unfold resolveUsers usersOf
  split
  · next hempty =>
    have hnone : group.listed.toList = [] := List.isEmpty_iff.1 hempty
    rw [hnone]
    rfl
  · rfl

theorem reportOn_client (g : Snapshot) (group : Group) :
    reportOn client group g = (.ok (.ofGroup group (g.usersOf group)), g) := by
  rw [reportOn, resolveUsers_client]

end Snapshot

/-- When each listed id has one user, the report shows the handles of these users. -/
theorem Report.lines_ofGroup {group : Group} {users : List User}
    (h : users.map User.id = group.listed.toList) :
    (ofGroup group users).lines = (arranged (users.map User.handle)).map
      ((if group.isComplement then "NOT " else "") ++ ·) := by
  have distinct : (users.map User.id).Nodup := h ▸ group.listed.nodup
  have hnames : group.listed.toList.map (name users) = users.map User.handle := by
    rw [← h, List.map_map]
    exact List.map_congr_left fun u hu => name_of_mem distinct hu
  rw [ofGroup, hnames]
  split
  · next hempty =>
    have hnone : users = [] := by
      rw [Ascending.isEmpty, ← h, List.isEmpty_iff, List.map_eq_nil_iff] at hempty
      exact hempty
    rw [hnone, List.map_nil, (arranged_perm []).eq_nil]
    rfl
  · rfl

namespace Snapshot

variable {g : Snapshot}

/-- The ids of the users that the words name. -/
def idsOf (g : Snapshot) (words : List String) : List AccountId :=
  ((HandleSet.ofHandles words).toList.filterMap g.userNamed).map User.id

theorem mem_idsOf {words : List String} (hw : ∀ w ∈ words, IsBareword w) {id : AccountId} :
    id ∈ g.idsOf words ↔ ∃ w ∈ words, ∃ u, g.userNamed w = some u ∧ u.id = id := by
  simp only [idsOf, List.mem_map, List.mem_filterMap, ← Ascending.mem_iff, HandleSet.mem_ofHandles]
  constructor
  · rintro ⟨u, ⟨_, ⟨w, hmem, rfl⟩, hu⟩, rfl⟩
    rw [userNamed_lowercase (hw w hmem)] at hu
    exact ⟨w, hmem, u, hu, rfl⟩
  · rintro ⟨w, hmem, u, hu, rfl⟩
    exact ⟨u, ⟨_, ⟨w, hmem, rfl⟩, (userNamed_lowercase (hw w hmem)).trans hu⟩, rfl⟩

theorem exists_userWithId_of_mem_idsOf {words : List String} {id : AccountId}
    (hid : id ∈ g.idsOf words) : ∃ u, g.userWithId id = some u := by
  obtain ⟨u, hu, rfl⟩ := List.mem_map.1 hid
  obtain ⟨w, -, hw⟩ := List.mem_filterMap.1 hu
  exact exists_userWithId (mem_of_userNamed hw).1

/-- A run of the set literal, alone or inside, loads the ids of the named users. -/
theorem execute_of_handles {e : Expr} {words : List String}
    (hs : e.sources = [.ofHandles words]) {schedule : Schedule}
    (finished : ((Loading.start e g).moves client (schedule e)).Finished) {group : Group}
    (evaluated : e.evaluate (KeyMap.empty.insert (Source.ofHandles words).key (g.idsOf words)) =
      .ok group) (workers : Workers) :
    (∃ r, (e.execute client workers schedule g).result = .ok r ∧ r.group = group) ∧
      (e.execute client workers schedule g).client = g := by
  obtain ⟨hresult, hclient⟩ := load_of_single hs finished (fetch_handles g _) workers
  exact ⟨⟨_, Expr.execute_of_load hresult evaluated, rfl⟩, by rw [Expr.execute_client, hclient]⟩

theorem userNamed_of_sameLetters
    (handles : g.users.Pairwise fun u v => sameLetters u.handle v.handle = false) {u : User}
    (hu : u ∈ g.users) {w : String} (hw : sameLetters u.handle w = true) :
    g.userNamed w = some u := by
  have distinct : (g.users.map fun u => u.handle.toList.map Char.toLower).Nodup :=
    List.pairwise_map.2 (handles.imp fun hne => beq_eq_false_iff_ne.1 hne)
  obtain ⟨v, hv⟩ := Option.isSome_iff_exists.1
    (List.find?_isSome (p := fun v : User => sameLetters v.handle w) |>.2 ⟨u, hu, hw⟩)
  obtain ⟨hmem, hsame⟩ := mem_of_userNamed hv
  have heq : v.handle.toList.map Char.toLower = u.handle.toList.map Char.toLower :=
    (beq_iff_eq.1 hsame).trans (beq_iff_eq.1 hw).symm
  rw [userNamed, hv, List.inj_on_of_nodup_map distinct hmem hu heq]

/-- Of users that are told apart, those are found for the ids that the words name. -/
theorem perm_filter_named {words : List String} (hw : ∀ w ∈ words, IsBareword w)
    (ids : (g.users.map User.id).Nodup)
    (handles : g.users.Pairwise fun u v => sameLetters u.handle v.handle = false)
    {users : List User} (husers : users.map User.id = (Ascending.ofList (g.idsOf words)).toList)
    (hfound : ∀ u ∈ users, u ∈ g.users) :
    users.Perm (g.users.filter fun u => words.any fun w => sameLetters u.handle w) := by
  have distinct : (users.map User.id).Nodup := husers ▸ (Ascending.ofList (g.idsOf words)).nodup
  refine (List.perm_ext_iff_of_nodup distinct.of_map (ids.of_map.filter _)).2 fun u => ?_
  have hid : u.id ∈ users.map User.id ↔
      ∃ w ∈ words, ∃ v, g.userNamed w = some v ∧ v.id = u.id := by
    rw [husers, ← Ascending.mem_iff, Ascending.mem_ofList, mem_idsOf hw]
  have hmem : u ∈ users ↔ u ∈ g.users ∧ u.id ∈ users.map User.id := by
    constructor
    · exact fun hu => ⟨hfound u hu, List.mem_map_of_mem hu⟩
    · rintro ⟨hu, hlisted⟩
      obtain ⟨v, hv, heq⟩ := List.mem_map.1 hlisted
      rwa [List.inj_on_of_nodup_map ids hu (hfound v hv) heq.symm]
  rw [hmem, hid, List.mem_filter, List.any_eq_true]
  refine and_congr_right fun hu => exists_congr fun w => and_congr_right fun _ => ?_
  constructor
  · rintro ⟨v, hv, heq⟩
    obtain ⟨hv', hsame⟩ := mem_of_userNamed hv
    rwa [← List.inj_on_of_nodup_map ids hv' hu heq]
  · exact fun hsame => ⟨u, userNamed_of_sameLetters handles hu hsame, rfl⟩

/-- The set literal of the words is the group of the ids of the first users that they name, and
nothing is counted. Its report has one line for each id: the handle of the first user with this id.
The complement has the same lines marked. Where neither ids nor handles are shared, the lines are
the handles of the named users. -/
theorem setLiteral_resolves (files : Files) (g : Snapshot) (workers : Workers)
    (schedule : Schedule) (words : List String) (hw : ∀ w ∈ words, IsBareword w)
    (finished : ∀ e ∈ [Expr.source (.ofHandles words), .compl (.source (.ofHandles words))],
      ((Loading.start e g).moves client (schedule e)).Finished) :
    let run := execute files client workers schedule (Expr.setLiteral words) g
    let others := execute files client workers schedule ("~" ++ Expr.setLiteral words) g
    ∃ (r r' : Result) (report report' : Report), run.result = .ok r ∧ others.result = .ok r' ∧
      reportOn client r.group run.client = (.ok report, g) ∧
      reportOn client r'.group others.client = (.ok report', g) ∧
      run.client = g ∧ others.client = g ∧
      r.group.isComplement = false ∧ r'.group = r.group.compl ∧
      (∀ id, r.group.contains id = true ↔
        ∃ w ∈ words, ∃ u, g.userNamed w = some u ∧ u.id = id) ∧
      (∃ users : List User, users.map User.id = r.group.listed.toList ∧
        (∀ u ∈ users, g.userWithId u.id = some u) ∧
        report.lines.Perm (users.map User.handle)) ∧
      report.lines.Pairwise Report.Precedes ∧
      report'.lines = report.lines.map ("NOT " ++ ·) ∧
      ((g.users.map User.id).Nodup →
        (g.users.Pairwise fun u v => sameLetters u.handle v.handle = false) →
        report.lines.Perm
          ((g.users.filter fun u => words.any fun w => sameLetters u.handle w).map
            User.handle)) := by
  intro run others
  let literal := Expr.source (.ofHandles words)
  let ids : Ascending AccountId := .ofList (g.idsOf words)
  let users := g.usersOf (.only ids)
  have hrun : run = literal.execute client workers schedule g := by
    simp only [run, execute, Expr.read_setLiteral hw, literal]
  have hothers : others = (Expr.compl literal).execute client workers schedule g := by
    simp only [others, execute, Expr.read_compl_setLiteral hw, literal]
  have hvalue := evaluate_source_insert .empty (.ofHandles words) (g.idsOf words)
  obtain ⟨⟨r, hr, hgroup⟩, hclient⟩ := execute_of_handles (e := literal) rfl
    (finished literal List.mem_cons_self) hvalue workers
  obtain ⟨⟨r', hr', hgroup'⟩, hclient'⟩ := execute_of_handles (e := .compl literal) rfl
    (finished (.compl literal) (by simp [literal])) (by rw [Expr.evaluate, hvalue]; rfl) workers
  have husers : users.map User.id = ids.toList := map_id_usersOf fun id hid =>
    exists_userWithId_of_mem_idsOf (Ascending.mem_ofList.1 hid)
  have hfound : ∀ u ∈ users, g.userWithId u.id = some u := fun _ => userWithId_of_mem_usersOf
  have hlines : (Report.ofGroup (.only ids) users).lines =
      Report.arranged (users.map User.handle) :=
    (Report.lines_ofGroup husers).trans (by simp [Group.isComplement])
  have hlines' : (Report.ofGroup (.allBut ids) users).lines =
      (Report.arranged (users.map User.handle)).map ("NOT " ++ ·) := Report.lines_ofGroup husers
  have hgroup : r.group = .only ids := hgroup
  have hgroup' : r'.group = .allBut ids := hgroup'
  have hperm := Report.arranged_perm (users.map User.handle)
  refine ⟨r, r', .ofGroup (.only ids) users, .ofGroup (.allBut ids) users, hrun ▸ hr,
    hothers ▸ hr', ?_, ?_, hrun ▸ hclient, hothers ▸ hclient', ?_, ?_, fun id => ?_,
    ⟨users, ?_, hfound, hlines ▸ hperm⟩, hlines ▸ Report.pairwise_arranged _, ?_,
    fun distinctIds distinctHandles => ?_⟩
  · rw [hrun, hclient, hgroup]
    exact reportOn_client g (.only ids)
  · rw [hothers, hclient', hgroup']
    exact reportOn_client g (.allBut ids)
  · rw [hgroup]
    rfl
  · rw [hgroup, hgroup']
    rfl
  · rw [hgroup, Group.contains, decide_eq_true_eq, Ascending.mem_ofList, mem_idsOf hw]
  · rw [hgroup, husers]
    rfl
  · rw [hlines, hlines']
  · rw [hlines]
    refine hperm.trans ((perm_filter_named hw distinctIds distinctHandles husers ?_).map _)
    exact fun u hu => (mem_of_userWithId (hfound u hu)).1

/-- Two users share an id, and no request for ids is allowed. -/
def sharedId : Snapshot :=
  (((empty.withUser ⟨1, "Bobby"⟩).withUser ⟨1, "bob"⟩).withUser ⟨3, "Ann"⟩).withRateLimit
    ⟨1, 0, ⟨1970, 1, 1, 0, 0⟩⟩

/-- The report of `bob` shows the other user with the same id. -/
theorem setLiteral_resolves_sharedId :
    let words := ["BOB", "zed", "ann"]
    (∀ w ∈ words, IsBareword w) ∧
      (∀ e ∈ [Expr.source (.ofHandles words), .compl (.source (.ofHandles words))],
        ((Loading.start e sharedId).moves client (inOrder e)).Finished) ∧
      ∃ (r r' : Result) (report report' : Report),
        (execute .error client {} inOrder "{BOB, zed, ann}" sharedId).result = .ok r ∧
        (execute .error client {} inOrder "~{BOB, zed, ann}" sharedId).result = .ok r' ∧
        reportOn client r.group sharedId = (.ok report, sharedId) ∧
        reportOn client r'.group sharedId = (.ok report', sharedId) ∧
        report.lines = ["Ann", "Bobby"] ∧ report'.lines = ["NOT Ann", "NOT Bobby"] := by
  intro words
  have hw : ∀ w ∈ words, IsBareword w := by decide
  have finished : ∀ e ∈ [Expr.source (.ofHandles words), .compl (.source (.ofHandles words))],
      ((Loading.start e sharedId).moves client (inOrder e)).Finished :=
    fun e _ => finished_inOrder client e sharedId
  obtain ⟨r, r', report, report', hr, hr', hreport, hreport', hclient, hclient', -, -, -,
    ⟨users, hids, hfound, hperm⟩, hordered, hmarked, -⟩ :=
    setLiteral_resolves .error sharedId {} inOrder words hw finished
  rw [hclient] at hreport
  rw [hclient'] at hreport'
  have hlisted : r.group.listed.toList = [1, 3] := by
    have hrun : ((execute .error client {} inOrder (Expr.setLiteral words) sharedId).result.map
        fun r => r.group.listed.toList) = .ok [1, 3] := by decide
    rw [hr] at hrun
    exact Except.ok.inj hrun
  have hhandles : users.map User.handle = (users.map User.id).map fun id =>
      ((sharedId.userWithId id).map User.handle).getD "" := by
    rw [List.map_map]
    exact List.map_congr_left fun u hu => by simp [hfound u hu]
  rw [hids, hlisted] at hhandles
  have hlines : report.lines = ["Ann", "Bobby"] :=
    (Report.eq_arranged (hhandles ▸ hperm) hordered).trans
      (Report.eq_arranged (by decide) (by decide)).symm
  refine ⟨hw, finished, r, r', report, report', hr, hr', hreport, hreport', hlines, ?_⟩
  rw [hmarked, hlines]
  rfl

end Snapshot

end AccountGroups
