import DevHermit.Landing.BoxClaims

namespace DevHermit.Landing.BoxClaims

open Lib List Function

theorem stripCr_cleanup (lock : Name) : stripCr (cleanupKey ++ (lock ++ cleanupSuffix)) =
      cleanupKey ++ (lock ++ cleanupSuffix) := by
  have hlast : cleanupSuffix.getLast? = some 'd' := by decide +kernel
  refine if_neg ?_
  rw [List.getLast?_append, List.getLast?_append, hlast]
  simp only [Option.some_or, Option.some.injEq]
  decide

theorem parse_claimBody {lock : Name} (h : '\n' ∉ lock) (tags : Tags) :
    parseClaimCleanup (claimBody (lock ++ cleanupSuffix) tags) = some (lock ++ cleanupSuffix) := by
  have hversion : '\n' ∉ versionLine := by decide +kernel
  have hskip : (stripCr versionLine).dropPrefix? cleanupKey = none := by decide +kernel
  have hkey : '\n' ∉ cleanupKey := by decide +kernel
  have hsuffix : '\n' ∉ cleanupSuffix := by decide +kernel
  have hline : '\n' ∉ cleanupKey ++ (lock ++ cleanupSuffix) := by
    simp only [mem_append, not_or]
    exact ⟨hkey, h, hsuffix⟩
  rw [parseClaimCleanup, claimBody, splitOn_append_cons_self_of_not_mem hversion,
    map_cons, List.findSome?_cons, hskip, splitOn_append_cons_self_of_not_mem hline, map_cons,
    stripCr_cleanup, List.findSome?_cons]
  have hdrop : (cleanupKey ++ (lock ++ cleanupSuffix)).dropPrefix?
      cleanupKey = some (lock ++ cleanupSuffix) :=
    List.dropPrefix?_eq_some_iff.mpr ⟨_, rfl, beq_self_eq_true _⟩
  rw [hdrop]

section

variable {P R : Type} {lock : R → Name} {sh sh' : Shared P R} {p q : P} {r : R}

structure Filed (lock : R → Name) (sh : Shared P R) : Prop where
  fresh : ∀ {name inode}, sh.dir name = some inode → inode < sh.fresh
  listed : ∀ {name inode}, sh.dir name = some inode → name ∈ sh.names
  inj : ∀ {name name' inode}, sh.dir name = some inode → sh.dir name' = some inode → name = name'
  record : ∀ {cleanup}, sh.record cleanup = true → ∃ r, cleanup = cleanupOf lock r

def Pointed (lock : R → Name) (sh : Shared P R) (r : R) : Prop :=
  ∃ inode tags, sh.dir (claimOf lock r) = some inode ∧
    sh.body inode = claimBody (cleanupOf lock r) tags

def Guards (sh : Shared P R) (p : P) (r : R) : Prop := sh.guard r = some p

def Watched (sh : Shared P R) (q : R) (since : R → Option Nat) (pending : R → Prop) : Prop :=
  ∀ r epoch, since r = some epoch → epoch ≤ sh.epoch r ∧
    (r ≠ q → epoch = sh.epoch r → sh.armed r = true ∧ pending r)

def Local.Ok (lock : R → Name) (sh : Shared P R) (p : P) : Local R → Prop
  | .idle | .lock _ _ | .readDir _ | .answered _ _ => True
  | .checkRecord r _ | .removeRecord r | .unlock r => Guards sh p r
  | .writeRecord r _ | .removeClaim r => Guards sh p r ∧ sh.armed r = false
  | .openClaim r _ =>
    Guards sh p r ∧ sh.armed r = false ∧ sh.record (cleanupOf lock r) = true
  | .writeClaim r _ inode => Guards sh p r ∧ sh.armed r = false ∧
      sh.record (cleanupOf lock r) = true ∧ sh.dir (claimOf lock r) = some inode
  | .next q todo since => Watched sh q since fun r => claimOf lock r ∈ todo
  | .readBody q name todo since =>
    Watched sh q since fun r => claimOf lock r = name ∨ claimOf lock r ∈ todo
  | .verify q name cleanup todo since => cleanup ≠ cleanupOf lock q ∧
      Watched sh q since fun r => claimOf lock r = name ∧ cleanup = cleanupOf lock r ∨
        claimOf lock r ∈ todo
  | .prune q _ todo since => Watched sh q since fun r => claimOf lock r ∈ todo

structure Visible (lock : R → Name) (c : Config P (Shared P R) (Local R)) : Prop where
  filed : Filed lock c.sh
  armed : ∀ r, c.sh.armed r = true →
    c.sh.record (cleanupOf lock r) = true ∧ Pointed lock c.sh r
  ok : ∀ p, (c.lo p).Ok lock c.sh p

structure Evolves (lock : R → Name) (p : P) (sh sh' : Shared P R) : Prop where
  others : ∀ {q r}, q ≠ p → Guards sh q r → Guards sh' q r ∧
    sh'.record (cleanupOf lock r) = sh.record (cleanupOf lock r) ∧
    sh'.armed r = sh.armed r ∧
    (sh.record (cleanupOf lock r) = true → sh'.dir (claimOf lock r) = sh.dir (claimOf lock r))
  epoch : ∀ r, sh.epoch r ≤ sh'.epoch r
  armed : ∀ r, sh'.epoch r = sh.epoch r → sh.armed r = true → sh'.armed r = true

theorem Evolves.refl (lock : R → Name) (p : P) (sh : Shared P R) : Evolves lock p sh sh where
  others := fun _ hg => ⟨hg, rfl, rfl, fun _ => rfl⟩
  epoch := fun _ => Nat.le_refl _
  armed := fun _ _ h => h

variable {pending : R → Prop} {since : R → Option Nat}

theorem Evolves.watched (h : Evolves lock p sh sh') {q : R} (hw : Watched sh q since pending) :
    Watched sh' q since pending := by
  intro r epoch hs
  obtain ⟨hle, himp⟩ := hw r epoch hs
  have hmono := h.epoch r
  refine ⟨hle.trans hmono, fun hne he => ?_⟩
  have hsame : sh'.epoch r = sh.epoch r := by omega
  obtain ⟨ha, hp⟩ := himp hne (by omega)
  exact ⟨h.armed r hsame ha, hp⟩

theorem Evolves.ok (h : Evolves lock p sh sh') (hq : q ≠ p) {l : Local R}
    (hl : l.Ok lock sh q) : l.Ok lock sh' q := by
  cases l with
  | idle | lock | readDir | answered => trivial
  | checkRecord r tags | removeRecord r | unlock r => exact (h.others hq hl).1
  | writeRecord r tags | removeClaim r =>
    obtain ⟨hg, -, ha, -⟩ := h.others hq hl.1
    exact ⟨hg, ha.trans hl.2⟩
  | openClaim r tags =>
    obtain ⟨hg, hr, ha, -⟩ := h.others hq hl.1
    exact ⟨hg, ha.trans hl.2.1, hr.trans hl.2.2⟩
  | writeClaim r tags inode =>
    obtain ⟨hg, hr, ha, hd⟩ := h.others hq hl.1
    exact ⟨hg, ha.trans hl.2.1, hr.trans hl.2.2.1, (hd hl.2.2.1).trans hl.2.2.2⟩
  | verify q name cleanup todo since => exact ⟨hl.1, h.watched hl.2⟩
  | _ => exact h.watched hl

theorem Guards.ne {r' : R} (hg : Guards sh p r) (hq : q ≠ p) (hg' : Guards sh q r') : r' ≠ r := by
  rintro rfl
  exact hq (Option.some.inj (hg'.symm.trans hg))

theorem Watched.weaken {q : R} {pending' : R → Prop} (hw : Watched sh q since pending)
    (himp : ∀ r, r ≠ q → sh.armed r = true → pending r → pending' r) :
    Watched sh q since pending' := by
  intro r epoch hs
  obtain ⟨hle, hp⟩ := hw r epoch hs
  refine ⟨hle, fun hne he => ?_⟩
  obtain ⟨ha, hpend⟩ := hp hne he
  exact ⟨ha, himp r hne ha hpend⟩

theorem Shared.unlink_of_ne (sh : Shared P R) {name other : Name} (h : other ≠ name) :
    (sh.unlink name).dir other = sh.dir other :=
  update_of_ne h _ _

theorem cleanupOf_injective (hfile : Function.Injective (claimOf lock)) :
    Function.Injective (cleanupOf lock) :=
  fun _ _ h => hfile (congrArg boxClaimFile h)

structure Opened (sh sh' : Shared P R) (name : Name) (inode : Nat) : Prop where
  record : sh'.record = sh.record
  guard : sh'.guard = sh.guard
  armed : sh'.armed = sh.armed
  epoch : sh'.epoch = sh.epoch
  dir : sh'.dir name = some inode
  others : ∀ {other}, other ≠ name → sh'.dir other = sh.dir other
  bodies : ∀ {other i}, other ≠ name → sh.dir other = some i → sh'.body i = sh.body i

theorem Filed.truncate (h : Filed lock sh) (name : Name) :
    Opened sh (sh.truncate name).1 name (sh.truncate name).2 ∧ Filed lock (sh.truncate name).1 := by
  cases hd : sh.dir name with
  | some inode =>
    simp only [Shared.truncate, hd]
    refine ⟨⟨rfl, rfl, rfl, rfl, hd, fun _ => rfl, fun hne hi => update_of_ne ?_ _ _⟩,
      h.fresh, h.listed, h.inj, h.record⟩
    rintro rfl
    exact hne (h.inj hi hd)
  | none =>
    simp only [Shared.truncate, hd]
    refine ⟨⟨rfl, rfl, rfl, rfl, update_self _ _ _,
      fun hne => update_of_ne hne _ _, fun _ hi => update_of_ne ?_ _ _⟩, ?_⟩
    · exact (h.fresh hi).ne
    · have hcases : ∀ {other i}, update sh.dir name (some sh.fresh) other = some i →
          other = name ∧ i = sh.fresh ∨ other ≠ name ∧ sh.dir other = some i := by
        intro other i hi
        by_cases he : other = name
        · subst he
          rw [update_self] at hi
          exact .inl ⟨rfl, (Option.some.inj hi).symm⟩
        · rw [update_of_ne he] at hi
          exact .inr ⟨he, hi⟩
      refine ⟨?_, ?_, ?_, h.record⟩
      · intro other i hi
        obtain ⟨rfl, rfl⟩ | ⟨-, hi⟩ := hcases hi
        · exact Nat.lt_succ_self _
        · exact (h.fresh hi).trans (Nat.lt_succ_self _)
      · intro other i hi
        obtain ⟨rfl, rfl⟩ | ⟨-, hi⟩ := hcases hi
        · exact mem_cons_self
        · exact mem_cons_of_mem _ (h.listed hi)
      · intro other other' i hi hi'
        obtain ⟨rfl, rfl⟩ | ⟨-, hi⟩ := hcases hi
        · obtain ⟨rfl, -⟩ | ⟨-, hi'⟩ := hcases hi'
          · rfl
          · exact absurd (h.fresh hi') (Nat.lt_irrefl _)
        · obtain ⟨-, rfl⟩ | ⟨-, hi'⟩ := hcases hi'
          · exact absurd (h.fresh hi) (Nat.lt_irrefl _)
          · exact h.inj hi hi'

theorem Pointed.parse (hline : ∀ r, '\n' ∉ lock r) (h : Pointed lock sh r) {inode : Nat}
    (hd : sh.dir (claimOf lock r) = some inode) :
    parseClaimCleanup (sh.body inode) = some (cleanupOf lock r) := by
  obtain ⟨inode', tags, hd', hb⟩ := h
  cases hd.symm.trans hd'
  rw [hb]
  exact parse_claimBody (hline r) tags

end

section

variable {P R : Type} {lock : R → Name}
  {c : Config P (Shared P R) (Local R)} {sh' : Shared P R} {p : P} {r : R} {l' : Local R}

theorem Visible.watch (h : Visible lock c) {listing : List Name}
    (hl : c.sh.lists listing = true) (q : R) :
    Watched c.sh q c.sh.since fun r => claimOf lock r ∈ listing := by
  intro r epoch hs
  unfold Shared.since at hs
  split at hs
  case isFalse => cases hs
  case isTrue harmed =>
    refine ⟨(Option.some.inj hs).ge, fun _ _ => ⟨harmed, ?_⟩⟩
    obtain ⟨-, inode, tags, hdir, -⟩ := h.armed r harmed
    have hall := List.all_eq_true.mp hl _ (h.filed.listed hdir)
    rw [hdir, Option.isNone_some, Bool.false_or, contains_iff_mem] at hall
    exact hall

variable [DecidableEq P]

theorem Visible.assemble (h : Visible lock c) (hev : Evolves lock p c.sh sh')
    (hfiled : Filed lock sh') (harmed : ∀ r, sh'.armed r = true →
      sh'.record (cleanupOf lock r) = true ∧ Pointed lock sh' r)
    (hl : l'.Ok lock sh' p) : Visible lock ⟨sh', update c.lo p l'⟩ where
  filed := hfiled
  armed := harmed
  ok := by
    intro q
    by_cases hq : q = p
    · subst hq
      exact (congrArg (Local.Ok lock sh' q) (update_self q l' c.lo)).mpr hl
    · exact (congrArg (Local.Ok lock sh' q) (update_of_ne hq l' c.lo)).mpr (hev.ok hq (h.ok q))

theorem Visible.move (h : Visible lock c) (hl : l'.Ok lock c.sh p) :
    Visible lock ⟨c.sh, update c.lo p l'⟩ :=
  h.assemble (Evolves.refl lock p c.sh) h.filed h.armed hl

variable {name : Name}

theorem Visible.unlink (h : Visible lock c)
    (hsafe : ∀ r, c.sh.armed r = true → claimOf lock r ≠ name)
    (hothers : ∀ {q r}, q ≠ p → Guards c.sh q r → c.sh.record (cleanupOf lock r) = true →
      claimOf lock r ≠ name) (hl : l'.Ok lock (c.sh.unlink name) p) :
    Visible lock ⟨c.sh.unlink name, update c.lo p l'⟩ := by
  have hback : ∀ {other : Name} {inode : Nat}, (c.sh.unlink name).dir other = some inode →
      c.sh.dir other = some inode := by
    intro other inode hd
    by_cases he : other = name
    · subst he
      cases (update_self other _ _).symm.trans hd
    · exact (c.sh.unlink_of_ne he).symm.trans hd
  refine h.assemble ⟨fun {q r'} hq hg' => ⟨hg', rfl, rfl, fun hr =>
    c.sh.unlink_of_ne (hothers hq hg' hr)⟩, fun _ => Nat.le_refl _, fun _ _ ha => ha⟩
    ⟨fun hd => h.filed.fresh (hback hd), fun hd => h.filed.listed (hback hd),
      fun hd hd' => h.filed.inj (hback hd) (hback hd'), h.filed.record⟩ ?_ hl
  intro r' ha
  obtain ⟨hrecord, inode, tags, hdir, hbody⟩ := h.armed r' ha
  exact ⟨hrecord, inode, tags, (c.sh.unlink_of_ne (hsafe r' ha)).trans hdir, hbody⟩

def Local.pruned : Local R → Option Name
  | .prune _ name _ _ => some name
  | _ => none

def Local.Patient (lock : R → Name) (sh : Shared P R) (l : Local R) : Prop :=
  ∀ r, l.pruned = some (claimOf lock r) → sh.record (cleanupOf lock r) = false

theorem Visible.prune (h : Visible lock c) {q : R} {todo : List Name} {since : R → Option Nat}
    (hok : (Local.prune q name todo since).Ok lock c.sh p)
    (hpatient : (Local.prune q name todo since).Patient lock c.sh) :
    Visible lock ⟨c.sh.unlink name, update c.lo p (.next q todo since)⟩ := by
  have hne : ∀ {r}, c.sh.record (cleanupOf lock r) = true → claimOf lock r ≠ name := by
    intro r hr hname
    cases hr.symm.trans (hpatient r (congrArg some hname.symm))
  exact h.unlink (fun r ha => hne (h.armed r ha).1) (fun _ _ hr => hne hr) hok

variable {tags : Tags}

theorem Visible.openClaim (h : Visible lock c) (hfile : Function.Injective (claimOf lock))
    (hok : (Local.openClaim r tags).Ok lock c.sh p) :
    Visible lock ⟨(c.sh.truncate (claimOf lock r)).1,
      update c.lo p (.writeClaim r tags (c.sh.truncate (claimOf lock r)).2)⟩ := by
  obtain ⟨hg, ha, hrec⟩ := hok
  obtain ⟨ho, hfiled⟩ := h.filed.truncate (claimOf lock r)
  have hguard : ∀ {q r'}, Guards c.sh q r' → Guards (c.sh.truncate (claimOf lock r)).1 q r' :=
    fun hg' => (congrFun ho.guard _).trans hg'
  refine h.assemble ⟨?_, fun r' => (congrFun ho.epoch r').ge, ?_⟩ hfiled ?_ ?_
  · intro q r' hq hg'
    exact ⟨hguard hg', congrFun ho.record _, congrFun ho.armed r',
      fun _ => ho.others (hfile.ne (hg.ne hq hg'))⟩
  · intro r' _ ha'
    exact (congrFun ho.armed r').trans ha'
  · intro r' ha'
    have ha'' : c.sh.armed r' = true := (congrFun ho.armed r').symm.trans ha'
    have hne : claimOf lock r' ≠ claimOf lock r := by
      intro he
      obtain rfl := hfile he
      cases ha.symm.trans ha''
    obtain ⟨hrecord, inode, tags', hdir, hbody⟩ := h.armed r' ha''
    exact ⟨(congrFun ho.record _).trans hrecord, inode, tags', (ho.others hne).trans hdir,
      (ho.bodies hne hdir).trans hbody⟩
  · exact ⟨hguard hg, (congrFun ho.armed r).trans ha, (congrFun ho.record _).trans hrec, ho.dir⟩

theorem Visible.writeRecord (h : Visible lock c) (hfile : Function.Injective (claimOf lock))
    (hg : Guards c.sh p r) (ha : c.sh.armed r = false) : Visible lock ⟨{ c.sh with
      record := update c.sh.record (cleanupOf lock r) true },
      update c.lo p (.openClaim r tags)⟩ := by
  have hcleanup := cleanupOf_injective hfile
  refine h.assemble ⟨fun {q r'} hq hg' => ⟨hg', ?_, rfl, fun _ => rfl⟩, fun _ => Nat.le_refl _,
    fun _ _ ha => ha⟩ ⟨h.filed.fresh, h.filed.listed, h.filed.inj, ?_⟩ ?_
    ⟨hg, ha, update_self _ _ _⟩
  · exact update_of_ne (fun he => hg.ne hq hg' (hcleanup he)) _ _
  · intro cleanup hr
    by_cases he : cleanup = cleanupOf lock r
    · exact ⟨r, he⟩
    · exact h.filed.record ((update_of_ne he true c.sh.record).symm.trans hr)
  · intro r' hr'
    obtain ⟨hrecord, hpoint⟩ := h.armed r' hr'
    refine ⟨?_, hpoint⟩
    by_cases he : cleanupOf lock r' = cleanupOf lock r
    · rw [he]
      exact update_self _ _ _
    · exact (update_of_ne he true c.sh.record).trans hrecord

variable [DecidableEq R]

theorem Visible.locked (h : Visible lock c) (hfree : c.sh.guard r = none)
    (hl : l'.Ok lock { c.sh with guard := update c.sh.guard r (some p) } p) :
    Visible lock ⟨{ c.sh with guard := update c.sh.guard r (some p) }, update c.lo p l'⟩ := by
  refine h.assemble ⟨fun {q r'} hq hg => ⟨?_, rfl, rfl, fun _ => rfl⟩, fun _ => Nat.le_refl _,
    fun _ _ ha => ha⟩ ⟨h.filed.fresh, h.filed.listed, h.filed.inj, h.filed.record⟩ h.armed hl
  refine (update_of_ne ?_ _ _).trans hg
  rintro rfl
  cases hfree.symm.trans hg

theorem Visible.unlocked (h : Visible lock c) (hg : Guards c.sh p r) :
    Visible lock ⟨{ c.sh with guard := update c.sh.guard r none }, update c.lo p .idle⟩ := by
  refine h.assemble ⟨fun {q r'} hq hg' => ⟨?_, rfl, rfl, fun _ => rfl⟩, fun _ => Nat.le_refl _,
    fun _ _ ha => ha⟩ ⟨h.filed.fresh, h.filed.listed, h.filed.inj, h.filed.record⟩ h.armed trivial
  exact (update_of_ne (hg.ne hq hg') _ _).trans hg'

theorem Visible.removeRecord (h : Visible lock c) (hfile : Function.Injective (claimOf lock))
    (hg : Guards c.sh p r) : Visible lock ⟨{ c.sh with
      record := update c.sh.record (cleanupOf lock r) false, armed := update c.sh.armed r false,
      epoch := update c.sh.epoch r (c.sh.epoch r + 1) }, update c.lo p (.removeClaim r)⟩ := by
  have hcleanup := cleanupOf_injective hfile
  have hother : ∀ {r' : R}, r' ≠ r → update c.sh.record (cleanupOf lock r) false
      (cleanupOf lock r') = c.sh.record (cleanupOf lock r') :=
    fun hne => update_of_ne (fun he => hne (hcleanup he)) _ _
  refine h.assemble ⟨fun {q r'} hq hg' => ⟨hg', hother (hg.ne hq hg'),
    update_of_ne (hg.ne hq hg') _ _, fun _ => rfl⟩, ?_, ?_⟩
    ⟨h.filed.fresh, h.filed.listed, h.filed.inj, ?_⟩ ?_ ⟨hg, update_self _ _ _⟩
  · intro r'
    by_cases he : r' = r
    · subst he
      exact (Nat.le_succ _).trans_eq (update_self r' _ c.sh.epoch).symm
    · exact (update_of_ne he (c.sh.epoch r + 1) c.sh.epoch).ge
  · intro r' he ha
    by_cases hr : r' = r
    · subst hr
      have hself := (update_self r' (c.sh.epoch r' + 1) c.sh.epoch).symm.trans he
      omega
    · exact (update_of_ne hr false c.sh.armed).trans ha
  · intro cleanup hr
    by_cases he : cleanup = cleanupOf lock r
    · exact ⟨r, he⟩
    · exact h.filed.record ((update_of_ne he false c.sh.record).symm.trans hr)
  · intro r' ha
    have hne : r' ≠ r := by
      rintro rfl
      cases (update_self r' false c.sh.armed).symm.trans ha
    obtain ⟨hrecord, hpoint⟩ := h.armed r' ((update_of_ne hne false c.sh.armed).symm.trans ha)
    exact ⟨(hother hne).trans hrecord, hpoint⟩

theorem Visible.writeClaim (h : Visible lock c) {inode : Nat}
    (hfile : Function.Injective (claimOf lock))
    (hok : (Local.writeClaim r tags inode).Ok lock c.sh p) : Visible lock ⟨{ c.sh with
      body := update c.sh.body inode (claimBody (cleanupOf lock r) tags)
      armed := update c.sh.armed r true }, update c.lo p (.unlock r)⟩ := by
  obtain ⟨hg, -, hrec, hdir⟩ := hok
  refine h.assemble ⟨fun {q r'} hq hg' => ⟨hg', rfl, update_of_ne (hg.ne hq hg') _ _,
    fun _ => rfl⟩, fun _ => Nat.le_refl _, ?_⟩
    ⟨h.filed.fresh, h.filed.listed, h.filed.inj, h.filed.record⟩ ?_ hg
  · intro r' _ ha
    by_cases hr : r' = r
    · subst hr
      exact update_self _ _ _
    · exact (update_of_ne hr true c.sh.armed).trans ha
  · intro r' ha
    by_cases hr : r' = r
    · subst hr
      exact ⟨hrec, inode, tags, hdir, update_self _ _ _⟩
    · obtain ⟨hrecord, inode', tags', hdir', hbody⟩ :=
        h.armed r' ((update_of_ne hr true c.sh.armed).symm.trans ha)
      refine ⟨hrecord, inode', tags', hdir', ?_⟩
      refine (update_of_ne ?_ _ _).trans hbody
      rintro rfl
      exact hr (hfile (h.filed.inj hdir' hdir))

end

variable {P R : Type} [DecidableEq R] {lock : R → Name}
  {c : Config P (Shared P R) (Local R)} {sh' : Shared P R} {p : P} {l' : Local R}
  {listing : List Name}

theorem Visible.readBody (h : Visible lock c) (hline : ∀ r, '\n' ∉ lock r)
    (hfile : Function.Injective (claimOf lock)) {q : R} {name : Name} {todo : List Name}
    {since : R → Option Nat} (hok : (Local.readBody q name todo since).Ok lock c.sh p)
    (hs : advance lock p c.sh listing (.readBody q name todo since) = some (sh', l')) :
    sh' = c.sh ∧ l'.Ok lock c.sh p := by
  have hparse : ∀ {r inode}, c.sh.armed r = true → c.sh.dir name = some inode →
      claimOf lock r = name →
      parseClaimCleanup (c.sh.body inode) = some (cleanupOf lock r) := by
    intro r inode ha hd hname
    exact (h.armed r ha).2.parse hline (hname ▸ hd)
  simp only [advance] at hs
  split at hs
  case h_1 hd =>
    cases hs
    refine ⟨rfl, Watched.weaken hok fun r _ ha hpend => hpend.resolve_left fun hname => ?_⟩
    obtain ⟨-, inode, tags, hdir, -⟩ := h.armed r ha
    rw [hname, hd] at hdir
    cases hdir
  case h_2 inode hd =>
    split at hs
    case h_1 hp =>
      cases hs
      refine ⟨rfl, Watched.weaken hok fun r _ ha hpend => hpend.resolve_left fun hname => ?_⟩
      cases hp.symm.trans (hparse ha hd hname)
    case h_2 cleanup hp =>
      cases hs
      refine ⟨rfl, ?_⟩
      have hpoint : ∀ {r}, c.sh.armed r = true → claimOf lock r = name →
          cleanup = cleanupOf lock r := fun ha hname =>
        Option.some.inj (hp.symm.trans (hparse ha hd hname))
      split_ifs with hmine
      · refine Watched.weaken hok fun r hne ha hpend => hpend.resolve_left fun hname => ?_
        exact hne (cleanupOf_injective hfile ((hpoint ha hname).symm.trans hmine))
      · refine ⟨hmine, Watched.weaken hok fun r _ ha hpend => ?_⟩
        exact hpend.imp (fun hname => ⟨hname, hpoint ha hname⟩) id

theorem Visible.start (lock : R → Name) : Visible lock (boxClaims P lock).init where
  filed := by
    refine ⟨?_, ?_, ?_, ?_⟩
    · intro name inode h
      cases h
    · intro name inode h
      cases h
    · intro name name' inode h
      cases h
    · intro cleanup h
      cases h
  armed := by
    intro r h
    cases h
  ok := fun _ => trivial

variable [DecidableEq P]

theorem Visible.advance (h : Visible lock c) (hline : ∀ r, '\n' ∉ lock r)
    (hfile : Function.Injective (claimOf lock)) (hpatient : (c.lo p).Patient lock c.sh)
    (hs : advance lock p c.sh listing (c.lo p) = some (sh', l')) :
    Visible lock ⟨sh', update c.lo p l'⟩ := by
  have hok := h.ok p
  generalize c.lo p = l at hs hok hpatient
  cases l with
  | idle => cases hs
  | lock r job =>
    simp only [BoxClaims.advance] at hs
    split at hs
    case h_1 => cases hs
    case h_2 hfree =>
      cases hs
      cases job with
      | none => exact h.locked hfree (update_self _ _ _)
      | some tags => exact h.locked hfree (update_self _ _ _)
  | checkRecord r tags =>
    cases hs
    refine h.move ?_
    split_ifs with hr
    · exact hok
    · exact ⟨hok, Bool.eq_false_iff.mpr fun ha => hr (h.armed r ha).1⟩
  | writeRecord r tags =>
    cases hs
    exact h.writeRecord hfile hok.1 hok.2
  | openClaim r tags =>
    cases hs
    exact h.openClaim hfile hok
  | writeClaim r tags inode =>
    cases hs
    exact h.writeClaim hfile hok
  | removeRecord r =>
    cases hs
    exact h.removeRecord hfile hok
  | removeClaim r =>
    cases hs
    refine h.unlink ?_ ?_ hok.1
    · intro r' ha hname
      obtain rfl := hfile hname
      cases hok.2.symm.trans ha
    · intro q r' hq hg _ hname
      exact hok.1.ne hq hg (hfile hname)
  | unlock r =>
    cases hs
    exact h.unlocked hok
  | readDir q =>
    simp only [BoxClaims.advance, Option.ite_none_right_eq_some] at hs
    obtain ⟨hl, hs⟩ := hs
    cases hs
    exact h.move (h.watch hl q)
  | next q todo since =>
    cases todo with
    | nil =>
      cases hs
      exact h.move trivial
    | cons name todo =>
      cases hs
      refine h.move ?_
      split_ifs with hclaim
      · exact Watched.weaken hok fun r _ _ hpend => mem_cons.mp hpend
      · refine Watched.weaken hok fun r _ _ hpend => ?_
        refine (mem_cons.mp hpend).resolve_left ?_
        rintro rfl
        exact hclaim (isSuffixOf_iff_suffix.mpr (suffix_append _ _))
  | readBody q name todo since =>
    obtain ⟨rfl, hl⟩ := h.readBody hline hfile hok hs
    exact h.move hl
  | verify q name cleanup todo since =>
    cases hs
    refine h.move ?_
    split_ifs with hr
    · trivial
    · refine Watched.weaken hok.2 fun r _ ha hpend => hpend.resolve_left ?_
      rintro ⟨-, rfl⟩
      exact hr (h.armed r ha).1
  | prune q name todo since =>
    cases hs
    exact h.prune hok hpatient
  | answered q refused =>
    cases hs
    exact h.move trivial

theorem visible_preserved (hline : ∀ r, '\n' ∉ lock r) (hfile : Function.Injective (claimOf lock)) :
    (boxClaims P lock).PreservesWhen (fun c a => (c.lo a.1).Patient lock c.sh) (Visible lock) := by
  intro c p i sh l h hpatient hs
  simp only [boxClaims] at hs
  cases i with
  | go listing => exact h.advance hline hfile hpatient hs
  | _ =>
    simp only at hs
    split at hs
    · cases hs
      exact h.move trivial
    · cases hs

end DevHermit.Landing.BoxClaims
