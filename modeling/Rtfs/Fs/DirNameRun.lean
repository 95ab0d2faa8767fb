import Rtfs.Fs.DirNames

namespace Rtfs

namespace DirEntries

open Listing
open DirContent

-- applied: whether the change of a call that fails at its commit went into the directory
inductive NameEvent
  | create (name : List UInt8) (ino : UInt64) (fileType : UInt8)
  | createFailed (name : List UInt8) (ino : UInt64) (fileType : UInt8) (applied : Bool)
  | exist (name : List UInt8)
  | remove (name : List UInt8)
  | removeFailed (name : List UInt8) (applied : Bool)
  | refuse (name : List UInt8)
  | rename (oldName newName : List UInt8) (ino : UInt64) (fileType : UInt8)
  | keep

def NameEvent.Dropped : NameEvent → Prop
  | .createFailed _ _ _ applied => applied = false
  | .removeFailed _ applied => applied = false
  | _ => False

structure DirEvent where
  names : NameEvent
  taken : List UInt32
  returned : List UInt32
  lost : List UInt32

def NameEvent.alone (names : NameEvent) : DirEvent := ⟨names,[],[],[]⟩

def NameEvent.behind (names : NameEvent) (out : Volume.Committed) : DirEvent :=
  ⟨names,out.taken,out.returned,out.lost⟩

structure CountedNames where
  names : Names
  num : Nat

inductive NameSpec (s : CountedNames) : NameEvent → CountedNames → Prop
  | create {name : List UInt8} {ino : UInt64} {fileType : UInt8} (h : s.names name = none) :
      NameSpec s (.create name ino fileType) ⟨Function.update s.names name (some (ino,fileType)),s.num + 1⟩
  | createFailed {name : List UInt8} {ino : UInt64} {fileType : UInt8} {applied : Bool} (h : s.names name = none) :
      NameSpec s (.createFailed name ino fileType applied)
        ⟨if applied then Function.update s.names name (some (ino,fileType)) else s.names,s.num + 1⟩
  | exist {name : List UInt8} (h : s.names name ≠ none) : NameSpec s (.exist name) s
  | remove {name : List UInt8} (h : s.names name ≠ none) :
      NameSpec s (.remove name) ⟨Function.update s.names name none,s.num - 1⟩
  | removeFailed {name : List UInt8} {applied : Bool} (h : s.names name ≠ none) :
      NameSpec s (.removeFailed name applied)
        ⟨if applied then Function.update s.names name none else s.names,s.num - 1⟩
  | refuse (name : List UInt8) : NameSpec s (.refuse name) s
  | rename {oldName newName : List UInt8} {ino : UInt64} {fileType : UInt8} (h : s.names oldName ≠ none)
      (hne : oldName ≠ newName) : NameSpec s (.rename oldName newName ino fileType)
        ⟨Function.update (Function.update s.names newName (some (ino,fileType))) oldName none,
          if s.names newName = none then s.num else s.num - 1⟩
  | keep : NameSpec s .keep s

theorem NameSpec.counts {s s' : CountedNames} {ev : NameEvent} (h : NameSpec s ev s') (hd : ¬ ev.Dropped)
    (hs : Counts s.names s.num) : Counts s'.names s'.num := by
  cases h with
  | create hnew => exact hs.insert hnew
  | @createFailed _ _ _ applied hnew =>
    cases applied with
    | true => exact hs.insert hnew
    | false => exact absurd rfl hd
  | remove hb => exact hs.erase hb
  | @removeFailed _ applied hb =>
    cases applied with
    | true => exact hs.erase hb
    | false => exact absurd rfl hd
  | @rename oldName newName ino fileType hb hne =>
    have hreplaced : Counts (Function.update s.names newName (some (ino,fileType)))
        (if s.names newName = none then s.num + 1 else s.num - 1 + 1) := by
      by_cases hnew : s.names newName = none
      · rw [if_pos hnew]
        exact hs.insert hnew
      · have hinsert := (hs.erase hnew).insert (a := newName) (b := (ino,fileType)) (Function.update_self ..)
        rw [Function.update_idem] at hinsert
        rw [if_neg hnew]
        exact hinsert
    have herased := hreplaced.erase (a := oldName) (by rw [Function.update_of_ne hne]; exact hb)
    simp only
    split at herased
    · rename_i hnew
      rw [if_pos hnew]
      exact herased
    · rename_i hnew
      rw [if_neg hnew]
      exact herased
  | exist _ => exact hs
  | refuse _ => exact hs
  | keep => exact hs

structure Outside (img img' : DirImage) : Prop where
  same : img' = { img with store := img'.store, read := img'.read }
  convertible : img.isInline = true → Convertible img'.store img.ino
  tree : img.isInline = false → IndexTree img'.store img.ino
  index : img.isInline = false → ∀ b, rtfsDirResolveDataLpaByBlockIndex img'.store img.ino b =
    rtfsDirResolveDataLpaByBlockIndex img.store img.ino b
  content : img.isInline = false → ∀ b lpa,
    rtfsDirResolveDataLpaByBlockIndex img.store img.ino b = .ok lpa → img'.read lpa = img.read lpa

-- a step of a handler; i_dentry_num has room for another name, and a creation that drops its change attached no block
inductive DirStep (img : DirImage) : DirEvent → DirImage → Prop
  | create {fuel : Nat} {add : AddAnswers} {commit : CommitAnswers} {name : List UInt8} {ino : UInt64} {fileType : UInt8}
      {out : Volume.Committed} (hnul : 0 ∉ name) (hino : ino ≠ 0 ∧ ino.toNat < 2 ^ 32) (hroom : img.iDentryNum ≠ 4294967295)
      (ha : Allocated img commit.lpas)
      (hr : Volume.rtfsMknodName add commit img fuel name (some ino) fileType = some (.ok out)) :
      DirStep img ((NameEvent.create name ino fileType).behind out) out.img
  | createFailed {fuel : Nat} {add : AddAnswers} {commit : CommitAnswers} {name : List UInt8} {ino : UInt64}
      {fileType : UInt8} {out : Volume.Committed} {applied : Bool} (hnul : 0 ∉ name) (hino : ino ≠ 0 ∧ ino.toNat < 2 ^ 32)
      (hroom : img.iDentryNum ≠ 4294967295) (ha : Allocated img commit.lpas)
      (hnew : Volume.rtfsNameExistsInParent img fuel name = some (.ok false))
      (hr : Volume.failedAdd add commit img name ino fileType = some (out,applied))
      (hsize : applied = false → out.img.iSize = img.iSize) :
      DirStep img ((NameEvent.createFailed name ino fileType applied).behind out) out.img
  | exist {fuel : Nat} {name : List UInt8} (hr : Volume.rtfsNameExistsInParent img fuel name = some (.ok true)) :
      DirStep img (NameEvent.exist name).alone img
  | remove {commit : CommitAnswers} {name : List UInt8} {out : Volume.Committed} (hv : ValidName name)
      (ha : Allocated img commit.lpas) (hr : Volume.rtfsUnlinkFromParentAndCommit commit img name = .ok out) :
      DirStep img ((NameEvent.remove name).behind out) out.img
  | removeFailed {commit : CommitAnswers} {name : List UInt8} {out : Volume.Committed} {applied : Bool}
      (hv : ValidName name) (ha : Allocated img commit.lpas) (hr : Volume.failedUnlink commit img name = some (out,applied)) :
      DirStep img ((NameEvent.removeFailed name applied).behind out) out.img
  | refuse {name : List UInt8} {d : RtfsDirInode} (hd : rtfsDirInodeResolve img = .ok d)
      (hr : (rtfsDirInodeRemoveEntry d name).1 = .error .enoent) : DirStep img (NameEvent.refuse name).alone img
  | rename {fuel : Nat} {add : AddAnswers} {commit : CommitAnswers} {checks : Except Errno Unit}
      {oldName newName : List UInt8} {ino : UInt64} {fileType : UInt8} {out : Volume.Committed} (hv : ValidName oldName)
      (hnul : 0 ∉ newName) (hne : oldName ≠ newName) (hino : ino ≠ 0 ∧ ino.toNat < 2 ^ 32)
      (hroom : img.iDentryNum ≠ 4294967295) (ha : Allocated img commit.lpas)
      (hr : Volume.rtfsRename add commit img fuel checks oldName newName ino fileType = some (.ok out)) :
      DirStep img ((NameEvent.rename oldName newName ino fileType).behind out) out.img
  | outside {img' : DirImage} (h : Outside img img') : DirStep img NameEvent.keep.alone img'

section Step
variable {img img' : DirImage} {out : Volume.Committed} {m : Names} {n : Nat} {c : DirContent}
  {es : List RtfsMemDirEntry} {name : List UInt8}
  {fuel : Nat}

theorem validateName_ok (hnul : 0 ∉ name) (h : Volume.validateName name = .ok ()) : ValidName name := by
  unfold Volume.validateName at h
  split at h
  · cases h
  split at h
  · cases h
  split at h
  · cases h
  · rename_i hz hlong hdots
    exact ⟨Nat.pos_of_ne_zero hz,Nat.not_lt.mp hlong,hnul,fun he => hdots (.inl he),fun he => hdots (.inr he)⟩

theorem validateName_error {e : Errno} (h : Volume.validateName name = .error e) : e ≠ .enoent := by
  rintro rfl
  unfold Volume.validateName at h
  split at h
  · cases h
  split at h
  · cases h
  split at h <;> cases h

def bound (m : Names) (name : List UInt8) : Except Errno (Option (UInt64 × UInt8)) :=
  (Volume.validateName name).bind (fun _ =>
    match m name with
    | some v => .ok (some v)
    | none => .error .enoent)

def found : RtfsDirLookupResult → Option (UInt64 × UInt8)
  | .entry e => some (e.ino,e.fileType)
  | _ => none

theorem Shows.answer (h : Shows img m n c es) (name : List UInt8) :
    (∃ e ∈ es, e.name = name ∧ answer es name = .ok (.entry e) ∧ m name = some (e.ino,e.fileType)) ∨
      answer es name = .error .enoent ∧ m name = none := by
  rcases answer_cases h.holds.distinct name with ⟨e,he,hname,hans⟩ | ⟨hno,hans⟩
  · refine .inl ⟨e,he,hname,hans,(h.lists _ _).mpr ?_⟩
    rw [← hname]
    exact List.mem_map_of_mem he
  · refine .inr ⟨hans,h.lists.none_iff.mpr (fun hin => ?_)⟩
    obtain ⟨k,hk,rfl⟩ := List.mem_map.mp hin
    obtain ⟨e,he,rfl⟩ := List.mem_map.mp hk
    exact hno e he rfl

theorem Shows.resolves (h : Shows img m n c es) (hdots : name ≠ [46] ∧ name ≠ [46,46])
    {r : Except Errno RtfsDirLookupResult} (hr : rtfsResolveNameInParent img fuel name = some r) :
    r = DirContent.answer es name := by
  obtain ⟨fuel',hr'⟩ := h.disk.shown.lookup name
  rw [resolve_unique hr hr',h.holds.lookup hdots]

theorem not_dots (h : Volume.validateName name = .ok ()) : name ≠ [46] ∧ name ≠ [46,46] := by
  constructor <;> rintro rfl <;> cases h

theorem Shows.lookup (h : Shows img m n c es) (name : List UInt8) : ∃ fuel,
    (Volume.rtfsLookupNameInParent img fuel name).map (Except.map found) = some (bound m name) := by
  unfold Volume.rtfsLookupNameInParent bound
  cases hv : Volume.validateName name with
  | error e => exact ⟨0,rfl⟩
  | ok u =>
    have hdots := not_dots hv
    obtain ⟨fuel,hr⟩ := h.disk.shown.lookup name
    refine ⟨fuel,?_⟩
    simp only [hr,h.holds.lookup hdots]
    rcases h.answer name with ⟨e,-,-,hans,hm⟩ | ⟨hans,hm⟩
    · rw [hans]
      change some (Except.ok _) = some (match m name with
        | some v => Except.ok (some v)
        | none => Except.error Errno.enoent)
      rw [hm]
      rfl
    · rw [hans]
      change some (Except.error _) = some (match m name with
        | some v => Except.ok (some v)
        | none => Except.error Errno.enoent)
      rw [hm]

theorem Shows.exists_iff (h : Shows img m n c es) {found : Bool}
    (hr : Volume.rtfsNameExistsInParent img fuel name = some (.ok found)) :
    Volume.validateName name = .ok () ∧ (found = true ↔ m name ≠ none) := by
  unfold Volume.rtfsNameExistsInParent Volume.rtfsLookupNameInParent at hr
  cases hv : Volume.validateName name with
  | error e =>
    rw [hv] at hr
    simp only [Option.map_some,if_neg (validateName_error hv)] at hr
    cases hr
  | ok u =>
    refine ⟨rfl,?_⟩
    rw [hv] at hr
    simp only at hr
    obtain ⟨r,hres,hr⟩ := Option.map_eq_some_iff.mp hr
    rw [h.resolves (not_dots hv) hres] at hr
    rcases h.answer name with ⟨e,-,-,hans,hm⟩ | ⟨hans,hm⟩
    · rw [hans] at hr
      cases hr
      rw [hm]
      simp
    · rw [hans] at hr
      simp only [if_true] at hr
      cases hr
      rw [hm]
      simp

theorem commitChanges_ok {answers : CommitAnswers} {r : Except Errno Unit × RtfsDirInode}
    (h : Volume.commitChanges answers img r = .ok out) : ∃ d, r = (.ok (),d) := by
  obtain ⟨ret,d⟩ := r
  cases ret with
  | error e => cases h
  | ok u => exact ⟨d,rfl⟩

theorem commitChanges_error {commit : CommitAnswers} {r : Except Errno Unit × RtfsDirInode} {err : Errno}
    (h : r.1 = .error err) : Volume.commitChanges commit img r = .error err := by
  obtain ⟨ret,d⟩ := r
  cases h
  rfl

theorem Shows.room (h : Shows img m n c es) : c.blocks.length + 2 ≤ 2 ^ 32 :=
  le_trans (Nat.add_le_add_right (h.disk.bound h.holds) 2) (by decide)

theorem Shows.entered (h : Shows img m n c es) {ino : UInt64} {fileType : UInt8} {add : AddAnswers} {d d₁ : RtfsDirInode}
    (hv : ValidName name) (hino : ino ≠ 0 ∧ ino.toNat < 2 ^ 32) (hroom : img.iDentryNum ≠ 4294967295)
    (hnew : m name = none) (hd : rtfsDirInodeResolve img = .ok d)
    (hadd : rtfsDirInodeAddEntry d name ino fileType add = (.ok (),d₁)) :
    SessionShows c es d₁ (Function.update m name (some (ino,fileType))) (n + 1) ∧ d₁.totalBlockCount ≤ 2 ^ 32 := by
  have hspace := h.room
  obtain ⟨d',hd',hstart,htotal,hbuilt⟩ := h.start
  cases hd.symm.trans hd'
  have hnum : d.iDentryNum ≠ 4294967295 := by
    rw [hbuilt.num,← h.disk.shown.iDentryNum]
    exact hroom
  obtain ⟨hadded,hgrown⟩ := hstart.add (by omega) hv hino.2 hino.1 hnew hnum hadd
  exact ⟨hadded,by omega⟩

theorem Shows.cleared (h : Shows img m n c es) {d d₁ : RtfsDirInode} (hv : ValidName name)
    (hd : rtfsDirInodeResolve img = .ok d) (hrem : rtfsDirInodeRemoveEntry d name = (.ok (),d₁)) :
    m name ≠ none ∧ SessionShows c es d₁ (Function.update m name none) (n - 1) ∧
      d₁.totalBlockCount = c.blocks.length := by
  obtain ⟨d',hd',hstart,htotal,-⟩ := h.start
  cases hd.symm.trans hd'
  obtain ⟨hremoved,hbound,hsame⟩ := hstart.remove h.holds hv hrem
  exact ⟨hbound,hremoved,hsame.trans htotal⟩

theorem ValidName.ne_nil (hv : ValidName name) : name ≠ [] := by
  rintro rfl
  exact absurd hv.1 (Nat.lt_irrefl 0)

theorem Shows.add (h : Shows img m n c es) {ino : UInt64} {fileType : UInt8} {add : AddAnswers} {commit : CommitAnswers}
    (hv : ValidName name) (hino : ino ≠ 0 ∧ ino.toNat < 2 ^ 32) (hroom : img.iDentryNum ≠ 4294967295)
    (hnew : m name = none) (ha : Allocated img commit.lpas)
    (hr : Volume.rtfsAddNameToParent add commit img name ino fileType = .ok out) :
    Leaves img out (Function.update m name (some (ino,fileType))) (n + 1) := by
  obtain ⟨d,hd,-⟩ := h.start
  unfold Volume.rtfsAddNameToParent at hr
  rw [if_neg hv.ne_nil,hd] at hr
  change Volume.commitChanges commit img (rtfsDirInodeAddEntry d name ino fileType add) = .ok out at hr
  obtain ⟨d₁,hadd⟩ := commitChanges_ok hr
  obtain ⟨hadded,hspace⟩ := h.entered hv hino hroom hnew hd hadd
  rw [hadd] at hr
  exact hadded.commit h hspace ha hr

theorem Shows.unlink (h : Shows img m n c es) {commit : CommitAnswers} (hv : ValidName name) (ha : Allocated img commit.lpas)
    (hr : Volume.rtfsUnlinkFromParentAndCommit commit img name = .ok out) :
    m name ≠ none ∧ Leaves img out (Function.update m name none) (n - 1) := by
  have hspace := h.room
  obtain ⟨d,hd,-⟩ := h.start
  unfold Volume.rtfsUnlinkFromParentAndCommit at hr
  rw [hd] at hr
  change Volume.commitChanges commit img (rtfsDirInodeRemoveEntry d name) = .ok out at hr
  obtain ⟨d₁,hrem⟩ := commitChanges_ok hr
  obtain ⟨hbound,hremoved,htotal⟩ := h.cleared hv hd hrem
  rw [hrem] at hr
  exact ⟨hbound,hremoved.commit h (by omega) ha hr⟩

theorem SessionShows.removeTarget {d d' : RtfsDirInode} {newName : List UInt8} {sourceType : UInt8} (hc : c.Holds es)
    (h : SessionShows c es d m n) (hv : ValidName newName) {existing : Option Volume.ExistingTarget}
    (habs : existing = none → m newName = none)
    (hr : Volume.removeTarget d newName sourceType existing = (.ok (),d')) :
    SessionShows c es d' (Function.update m newName none) (if m newName = none then n else n - 1) ∧
      d'.totalBlockCount = d.totalBlockCount := by
  cases existing with
  | none =>
    cases hr
    have hsame : Function.update m newName none = m := by
      rw [← habs rfl]
      exact Function.update_eq_self newName m
    rw [hsame,if_pos (habs rfl)]
    exact ⟨h,rfl⟩
  | some target =>
    unfold Volume.removeTarget at hr
    simp only at hr
    split at hr
    · cases hr
    split at hr
    · cases hr
    cases hcheck : target.checks with
    | error e =>
      rw [hcheck] at hr
      cases hr
    | ok u =>
      rw [hcheck] at hr
      obtain ⟨hremoved,hbound,htotal⟩ := h.remove hc hv hr
      rw [if_neg hbound]
      exact ⟨hremoved,htotal⟩

theorem Shows.renameWithin (h : Shows img m n c es) {add : AddAnswers} {commit : CommitAnswers}
    {oldName newName : List UInt8} {ino : UInt64} {fileType : UInt8} {existing : Option Volume.ExistingTarget}
    (hold : ValidName oldName) (hnew : ValidName newName) (hne : oldName ≠ newName) (hino : ino ≠ 0 ∧ ino.toNat < 2 ^ 32)
    (hroom : img.iDentryNum ≠ 4294967295) (ha : Allocated img commit.lpas) (habs : existing = none → m newName = none)
    (hr : Volume.rtfsRenameWithinSameParent add commit img oldName newName ino fileType existing = .ok out) :
    m oldName ≠ none ∧ Leaves img out
      (Function.update (Function.update m newName (some (ino,fileType))) oldName none)
      (if m newName = none then n else n - 1) := by
  have hspace := h.room
  obtain ⟨d,hd,hstart,htotal,hbuilt⟩ := h.start
  unfold Volume.rtfsRenameWithinSameParent at hr
  rw [hd] at hr
  change Volume.commitChanges commit img (Volume.renameEntries add d oldName newName ino fileType existing) = .ok out at hr
  obtain ⟨d₃,hren⟩ := commitChanges_ok hr
  have hlast := hren
  unfold Volume.renameEntries at hlast
  rcases hrem : Volume.removeTarget d newName fileType existing with ⟨ret₁,d₁⟩
  rw [hrem] at hlast
  cases ret₁ with
  | error e => cases hlast
  | ok u₁ =>
    simp only at hlast
    rcases hadd : rtfsDirInodeAddEntry d₁ newName ino fileType add with ⟨ret₂,d₂⟩
    rw [hadd] at hlast
    cases ret₂ with
    | error e => cases hlast
    | ok u₂ =>
      obtain ⟨h₁,ht₁⟩ := hstart.removeTarget h.holds hnew habs hrem
      have hnum : d₁.iDentryNum ≠ 4294967295 := by
        intro he
        have hcount := h₁.count
        have hlt := d.iDentryNum.toNat_lt
        rw [hstart.count] at hlt
        have hmax : (4294967295 : UInt32).toNat = 4294967295 := by decide
        rw [he,hmax] at hcount
        refine hroom ?_
        rw [h.disk.shown.iDentryNum,← hbuilt.num,← UInt32.toNat_inj,hmax,hstart.count]
        split at hcount <;> omega
      obtain ⟨h₂,ht₂⟩ := h₁.add (by omega) hnew hino.2 hino.1 (Function.update_self ..) hnum hadd
      rw [Function.update_idem] at h₂
      obtain ⟨h₃,hbound,ht₃⟩ := h₂.remove h.holds hold hlast
      rw [Function.update_of_ne hne] at hbound
      rw [Nat.add_sub_cancel] at h₃
      rw [hren] at hr
      exact ⟨hbound,h₃.commit h (by omega) ha hr⟩

theorem Shows.rename (h : Shows img m n c es) {add : AddAnswers} {commit : CommitAnswers} {checks : Except Errno Unit}
    {oldName newName : List UInt8} {ino : UInt64} {fileType : UInt8} (hv : ValidName oldName) (hnul : 0 ∉ newName)
    (hne : oldName ≠ newName) (hino : ino ≠ 0 ∧ ino.toNat < 2 ^ 32) (hroom : img.iDentryNum ≠ 4294967295)
    (ha : Allocated img commit.lpas)
    (hr : Volume.rtfsRename add commit img fuel checks oldName newName ino fileType = some (.ok out)) :
    m oldName ≠ none ∧ Leaves img out
      (Function.update (Function.update m newName (some (ino,fileType))) oldName none)
      (if m newName = none then n else n - 1) := by
  unfold Volume.rtfsRename at hr
  cases hvn : Volume.validateName newName with
  | error e =>
    rw [hvn] at hr
    cases hr
  | ok u =>
    rw [hvn] at hr
    simp only at hr
    rw [if_neg hv.ne_nil,if_neg hne] at hr
    obtain ⟨r,hres,hr⟩ := Option.map_eq_some_iff.mp hr
    rw [h.resolves (not_dots hvn) hres] at hr
    have hnew := validateName_ok hnul hvn
    rcases h.answer newName with ⟨e,-,-,hans,hm⟩ | ⟨hans,hm⟩
    · rw [hans] at hr
      simp only at hr
      rw [if_neg (h.real _ _ hm)] at hr
      exact h.renameWithin hv hnew hne hino hroom ha (fun he => (by cases he)) hr
    · rw [hans] at hr
      simp only [if_true] at hr
      exact h.renameWithin hv hnew hne hino hroom ha (fun _ => hm) hr

theorem failedChanges_ok {answers : CommitAnswers} {applied : Bool} {r : Except Errno Unit × RtfsDirInode}
    (h : Volume.failedChanges answers img r = some (out,applied)) : ∃ d, r = (.ok (),d) := by
  obtain ⟨ret,d⟩ := r
  cases ret with
  | error e => cases h
  | ok u => exact ⟨d,rfl⟩

theorem Shows.addFailed (h : Shows img m n c es) {ino : UInt64} {fileType : UInt8} {add : AddAnswers}
    {commit : CommitAnswers} {applied : Bool} (hv : ValidName name) (hino : ino ≠ 0 ∧ ino.toNat < 2 ^ 32)
    (hroom : img.iDentryNum ≠ 4294967295) (hnew : m name = none) (ha : Allocated img commit.lpas)
    (hr : Volume.failedAdd add commit img name ino fileType = some (out,applied))
    (hsize : applied = false → out.img.iSize = img.iSize) :
    Leaves img out (if applied then Function.update m name (some (ino,fileType)) else m) (n + 1) := by
  obtain ⟨d,hd,-⟩ := h.start
  unfold Volume.failedAdd at hr
  rw [if_neg hv.ne_nil,hd] at hr
  change Volume.failedChanges commit img (rtfsDirInodeAddEntry d name ino fileType add) = some (out,applied) at hr
  obtain ⟨d₁,hadd⟩ := failedChanges_ok hr
  obtain ⟨hadded,hspace⟩ := h.entered hv hino hroom hnew hd hadd
  rw [hadd] at hr
  exact hadded.failed h hspace ha hr (fun hf => .inr (hsize hf))

theorem Shows.unlinkFailed (h : Shows img m n c es) {commit : CommitAnswers} {applied : Bool} (hv : ValidName name)
    (ha : Allocated img commit.lpas) (hr : Volume.failedUnlink commit img name = some (out,applied)) :
    m name ≠ none ∧ Leaves img out (if applied then Function.update m name none else m) (n - 1) := by
  have hspace := h.room
  obtain ⟨d,hd,-⟩ := h.start
  unfold Volume.failedUnlink at hr
  rw [hd] at hr
  change Volume.failedChanges commit img (rtfsDirInodeRemoveEntry d name) = some (out,applied) at hr
  obtain ⟨d₁,hrem⟩ := failedChanges_ok hr
  obtain ⟨hbound,hremoved,htotal⟩ := h.cleared hv hd hrem
  rw [hrem] at hr
  exact ⟨hbound,hremoved.failed h (by omega) ha hr (fun _ => .inl htotal)⟩

theorem Shows.outside (h : Shows img m n c es) (ho : Outside img img') : Shows img' m n c es := by
  obtain ⟨store,ino,iSize,iDentryNum,isInline,inlineDentry,read⟩ := img'
  obtain ⟨hs,hconv,htree,hindex,hcontent⟩ := ho
  cases hs
  have hflag := h.disk.shown.isInline
  refine ⟨⟨⟨h.disk.shown.iDentryNum,hflag,h.disk.shown.inlineDentry,h.disk.shown.size,fun i b hb => ?_⟩,h.disk.ino,
    h.disk.size,fun hi => htree (hflag.trans hi),fun hi => hconv (hflag.trans hi)⟩,h.holds,h.lists,h.count,h.real⟩
  have hreg : img.isInline = false := by
    rw [hflag]
    cases hin : c.isInline with
    | false => rfl
    | true =>
      rw [(h.holds.inline hin).1] at hb
      cases hb
  obtain ⟨haddr,hread⟩ := h.disk.shown.blocks i b hb
  exact ⟨(hindex hreg _).trans haddr,(hcontent hreg _ _ haddr).trans hread⟩

theorem Shows.unmoved (h : Shows img m n c es) (h' : Shows img' m n c es) :
    Balanced img img' [] [] [] := by
  unfold Balanced
  rw [h.mapped,h'.mapped]
  exact .refl _

theorem DirStep.refines {ev : DirEvent} (h : Shows img m n c es) (hs : DirStep img ev img') :
    (∃ s', NameSpec ⟨m,n⟩ ev.names s' ∧ ∃ c' es', Shows img' s'.names s'.num c' es') ∧
      Balanced img img' ev.taken ev.returned ev.lost := by
  have hunbound {name : List UInt8} {fuel : Nat}
      (hex : Volume.rtfsNameExistsInParent img fuel name = some (.ok false)) : m name = none := by
    by_contra hne
    exact absurd ((h.exists_iff hex).2.mpr hne) (by decide)
  cases hs with
  | @create fuel _ _ name _ _ _ hnul hino hroom ha hr =>
    unfold Volume.rtfsMknodName at hr
    obtain ⟨r,hex,hr⟩ := Option.map_eq_some_iff.mp hr
    obtain ⟨found,rfl,hr⟩ := Except.bind_ok hr
    have hv := validateName_ok hnul (h.exists_iff hex).1
    cases found with
    | true => cases hr
    | false =>
      have hleaves := h.add hv hino hroom (hunbound hex) ha hr
      exact ⟨⟨_,.create (hunbound hex),hleaves.shows⟩,hleaves.balanced⟩
  | createFailed hnul hino hroom ha hex hr hsize =>
    have hleaves := h.addFailed (validateName_ok hnul (h.exists_iff hex).1) hino hroom (hunbound hex) ha hr hsize
    exact ⟨⟨_,.createFailed (hunbound hex),hleaves.shows⟩,hleaves.balanced⟩
  | exist hr => exact ⟨⟨⟨m,n⟩,.exist ((h.exists_iff hr).2.mp rfl),c,es,h⟩,.refl _⟩
  | remove hv ha hr =>
    obtain ⟨hbound,hleaves⟩ := h.unlink hv ha hr
    exact ⟨⟨_,.remove hbound,hleaves.shows⟩,hleaves.balanced⟩
  | removeFailed hv ha hr =>
    obtain ⟨hbound,hleaves⟩ := h.unlinkFailed hv ha hr
    exact ⟨⟨_,.removeFailed hbound,hleaves.shows⟩,hleaves.balanced⟩
  | refuse hd hr => exact ⟨⟨⟨m,n⟩,.refuse _,c,es,h⟩,.refl _⟩
  | rename hv hnul hne hino hroom ha hr =>
    obtain ⟨hbound,hleaves⟩ := h.rename hv hnul hne hino hroom ha hr
    exact ⟨⟨_,.rename hbound hne,hleaves.shows⟩,hleaves.balanced⟩
  | outside ho => exact ⟨⟨⟨m,n⟩,.keep,c,es,h.outside ho⟩,h.unmoved (h.outside ho)⟩

end Step

-- a directory as rtfsInitCreatedInode makes it
structure NewDir (img : DirImage) : Prop where
  ino : img.ino ≠ invalidNid
  iSize : img.iSize = 0
  iDentryNum : img.iDentryNum = 0
  isInline : img.isInline = true
  inlineDentry : img.inlineDentry = DentryArea.zero
  convertible : Convertible img.store img.ino

def noNames : CountedNames := ⟨fun _ => none,0⟩

section Run
variable {img img' : DirImage} {m : Names} {n : Nat} {c : DirContent} {es : List RtfsMemDirEntry}

theorem NewDir.shows (h : NewDir img) : Shows img noNames.names noNames.num ⟨0,true,DentryArea.zero,[]⟩ [] := by
  refine ⟨⟨⟨h.iDentryNum,h.isInline,h.inlineDentry,?_,fun i b hb => (by cases hb)⟩,h.ino,?_,fun hf => (by cases hf),
    fun _ => h.convertible⟩,⟨fun e he => absurd he List.not_mem_nil,List.nodup_nil,fun e he => absurd he List.not_mem_nil,
      Nat.zero_le _,fun _ => ⟨rfl,DentryArea.holds_zero,fun e he => absurd he List.not_mem_nil⟩,fun hf => (by cases hf),
      fun hf => (by cases hf)⟩,.nil,rfl,fun _ _ hv => (by cases hv)⟩
  · rw [h.iSize]
    rfl
  · rw [h.iSize]
    rfl

theorem dirRun_shows {events : List DirEvent} (h : NewDir img) (hrun : Labelled.Run DirStep img events img') :
    ∃ s, Labelled.Run NameSpec noNames (events.map DirEvent.names) s ∧ ∃ c es, Shows img' s.names s.num c es := by
  have hsteps : ∀ (img : DirImage) (s : CountedNames) (ev : DirEvent) (img' : DirImage),
      (∃ c es, Shows img s.names s.num c es) → DirStep img ev img' →
        ∃ s', NameSpec s ev.names s' ∧ ∃ c es, Shows img' s'.names s'.num c es := by
    rintro img s ev img' ⟨c,es,hs⟩ hstep
    exact (hstep.refines hs).1
  obtain ⟨s,hspec,hshows⟩ := hrun.simulates hsteps ⟨_,_,h.shows⟩
  exact ⟨s,hspec.relabel (f := DirEvent.names) (fun _ _ _ hstep => hstep),hshows⟩

-- every run over a directory is a run over a map and a count: lookups answer by the one, i_dentry_num is the other,
-- and 0 only without names unless a failed call dropped its change
theorem dir_refines_names (img img' : DirImage) (events : List DirEvent) (hnew : NewDir img)
    (hrun : Labelled.Run DirStep img events img') :
    ∃ s, Labelled.Run NameSpec noNames (events.map DirEvent.names) s ∧ img'.iDentryNum.toNat = s.num ∧
      ((∀ ev ∈ events.map DirEvent.names, ¬ ev.Dropped) → (img'.iDentryNum = 0 ↔ ∀ name, s.names name = none)) ∧
      ∀ name, ∃ fuel, (Volume.rtfsLookupNameInParent img' fuel name).map (Except.map found) =
        some (bound s.names name) := by
  obtain ⟨s,hspec,c,es,hshows⟩ := dirRun_shows hnew hrun
  have hnum : img'.iDentryNum.toNat = s.num := (congrArg UInt32.toNat hshows.disk.shown.iDentryNum).trans hshows.count
  refine ⟨s,hspec,hnum,fun hkept => ?_,hshows.lookup⟩
  have hcounts : Counts s.names s.num := hspec.keeps (I := fun s => Counts s.names s.num)
    (P := fun ev => ¬ ev.Dropped) (fun _ _ _ hd hs hstep => hstep.counts hd hs) hkept Counts.nil
  rw [← hcounts.zero_iff,← hnum,← UInt32.toNat_inj]
  rfl

def newDir : DirImage := ⟨emptyFile,1,0,0,true,DentryArea.zero,fun _ => none⟩

theorem newDir_new : NewDir newDir where
  ino := by decide
  iSize := rfl
  iDentryNum := rfl
  isInline := rfl
  inlineDentry := rfl
  convertible :=
    { inode := emptyFile_tree.inode
      nodup := by simp [newDir,emptyFile,NodeStore.freshNids]
      fresh := by simp [newDir,emptyFile,NodeStore.freshNids] }

theorem allocated_of_mapped {lpas : List UInt32} (hd : lpas.Nodup)
    (h : (mappedLpas img).all (fun lpa => !lpas.contains lpa) = true) : Allocated img lpas := by
  refine ⟨hd,fun _ i hi lpa hlpa hin => ?_⟩
  have hfree := List.all_eq_true.mp h lpa ?_
  · rw [List.contains_iff_mem.mpr hin] at hfree
    cases hfree
  unfold mappedLpas
  refine List.mem_filterMap.mpr ⟨i,List.mem_range.mpr hi,?_⟩
  rw [hlpa]
  rfl

theorem eq_ok_of_toOption {ε α : Type} {o : Option (Except ε α)} {a : α} (h : o.bind Except.toOption = some a) :
    o = some (.ok a) := by
  cases o with
  | none => cases h
  | some r =>
    cases r with
    | error e => cases h
    | ok x =>
      cases h
      rfl

def creation (add : AddAnswers) (commit : CommitAnswers) (name : List UInt8) (img : DirImage) :
    Option Volume.Committed :=
  (Volume.rtfsMknodName add commit img 3 name (some 7) 1).bind Except.toOption

theorem creation_step {add : AddAnswers} {commit : CommitAnswers} {out : Volume.Committed}
    (hv : ValidName name) (hroom : img.iDentryNum ≠ 4294967295) (ha : Allocated img commit.lpas)
    (h : creation add commit name img = some out) : DirStep img ((NameEvent.create name 7 1).behind out) out.img :=
  .create hv.2.2.1 ⟨by decide,by decide⟩ hroom ha (eq_ok_of_toOption h)

def inlineCreation (img : DirImage) (name : List UInt8) : Option DirImage :=
  ((creation ⟨true,[],true⟩ ⟨true,[],none⟩ name img).filter (fun out =>
    decide (img.iDentryNum ≠ 4294967295 ∧ (out.taken,out.returned,out.lost) = ([],[],[])))).map
      Volume.Committed.img

theorem inlineCreation_step (hv : ValidName name) (h : inlineCreation img name = some img') :
    DirStep img (NameEvent.create name 7 1).alone img' := by
  obtain ⟨out,hout,rfl⟩ := Option.map_eq_some_iff.mp h
  obtain ⟨hc,hkeeps⟩ := Option.filter_eq_some_iff.mp hout
  obtain ⟨hroom,hnone⟩ := of_decide_eq_true hkeeps
  obtain ⟨ht,hrl⟩ := Prod.mk.inj hnone
  obtain ⟨hr,hl⟩ := Prod.mk.inj hrl
  have hstep := creation_step hv hroom (allocated_of_mapped List.nodup_nil (List.all_eq_true.mpr (fun _ _ => rfl))) hc
  unfold NameEvent.behind at hstep
  rw [ht,hr,hl] at hstep
  exact hstep

theorem inlineCreations_run {names : List (List UInt8)} (hv : ∀ name ∈ names, ValidName name)
    (h : names.foldlM inlineCreation img = some img') :
    Labelled.Run DirStep img (names.map (fun name => (NameEvent.create name 7 1).alone)) img' := by
  induction names generalizing img with
  | nil =>
    cases h
    exact .nil
  | cons name names ih =>
    rw [List.foldlM_cons] at h
    obtain ⟨img₁,hone,hrest⟩ := Option.bind_eq_some_iff.mp h
    exact .cons (inlineCreation_step (hv _ List.mem_cons_self) hone)
      (ih (fun n hn => hv n (List.mem_cons_of_mem _ hn)) hrest)

def growingAdd : AddAnswers := ⟨true,[⟨some 3072,true⟩,⟨some 3073,true⟩],true⟩

def lookupBlock (img : DirImage) (name : List UInt8) : Option UInt32 :=
  ((Volume.rtfsLookupNameInParent img 3 name).bind Except.toOption).bind (fun r =>
    match r with
    | .entry e => some e.sourceBlockIndex
    | _ => none)

theorem lookupBlock_found {b : UInt32} (h : lookupBlock img name = some b) :
    ∃ e, Volume.rtfsLookupNameInParent img 3 name = some (.ok (.entry e)) ∧ e.sourceBlockIndex = b := by
  obtain ⟨r,hr,hb⟩ := Option.bind_eq_some_iff.mp h
  cases r with
  | entry e => exact ⟨e,eq_ok_of_toOption hr,Option.some.inj hb⟩
  | self => cases hb
  | parent => cases hb

-- seven creations, a removal, and a removal whose commit fails behind the relocations
structure LongRun (img grown cut failed : DirImage) : Prop where
  inline : ((List.range 6).map longName).foldlM inlineCreation newDir = some img
  grow : creation growingAdd ⟨true,[3074,3075],none⟩ (longName 6) img =
    some ⟨grown,[3072,3073,3074,3075],[3072,3073],[]⟩
  remove : Volume.rtfsUnlinkFromParentAndCommit ⟨true,[3076],none⟩ grown (longName 0) = .ok ⟨cut,[3076],[3074],[]⟩
  fail : Volume.failedUnlink ⟨true,[3077],some .eio⟩ cut (longName 1) = some (⟨failed,[3077],[],[3076]⟩,true)
  room : img.iDentryNum ≠ 4294967295
  unmapped : mappedLpas img = []
  grownLpas : mappedLpas grown = [3074,3075]
  cutLpas : mappedLpas cut = [3076,3075]
  failedLpas : mappedLpas failed = [3077,3075]
  found : lookupBlock cut (longName 6) = some 1

theorem longRun : ∃ img grown cut failed, LongRun img grown cut failed := by
  have hrun : (((List.range 6).map longName).foldlM inlineCreation newDir).any (fun img =>
      decide (img.iDentryNum ≠ 4294967295 ∧ mappedLpas img = []) &&
      (creation growingAdd ⟨true,[3074,3075],none⟩ (longName 6) img).any (fun a =>
        decide (a.taken = [3072,3073,3074,3075] ∧ a.returned = [3072,3073] ∧ a.lost = [] ∧
          mappedLpas a.img = [3074,3075]) &&
        (Volume.rtfsUnlinkFromParentAndCommit ⟨true,[3076],none⟩ a.img (longName 0)).toOption.any (fun b =>
          decide (b.taken = [3076] ∧ b.returned = [3074] ∧ b.lost = [] ∧ mappedLpas b.img = [3076,3075] ∧
            lookupBlock b.img (longName 6) = some 1) &&
          (Volume.failedUnlink ⟨true,[3077],some .eio⟩ b.img (longName 1)).any (fun f =>
            decide (f.1.taken = [3077] ∧ f.1.returned = [] ∧ f.1.lost = [3076] ∧
              mappedLpas f.1.img = [3077,3075] ∧ f.2 = true))))) = true := by
    decide +kernel
  obtain ⟨img,hinline,hrest⟩ := (Option.any_eq_true _ _).mp hrun
  obtain ⟨himg,hrest⟩ := Bool.and_eq_true_iff.mp hrest
  obtain ⟨⟨grown,at',ar,al⟩,hgrow,hrest⟩ := (Option.any_eq_true _ _).mp hrest
  obtain ⟨ha,hrest⟩ := Bool.and_eq_true_iff.mp hrest
  obtain ⟨⟨cut,bt,br,bl⟩,hcut,hrest⟩ := (Option.any_eq_true _ _).mp hrest
  obtain ⟨hb,hrest⟩ := Bool.and_eq_true_iff.mp hrest
  obtain ⟨⟨⟨failed,ft,fr,fl⟩,applied⟩,hfail,hf⟩ := (Option.any_eq_true _ _).mp hrest
  obtain ⟨hroom,hunmapped⟩ := of_decide_eq_true himg
  obtain ⟨hat,har,hal,hgrown⟩ := of_decide_eq_true ha
  obtain ⟨hbt,hbr,hbl,hcutLpas,hfound⟩ := of_decide_eq_true hb
  obtain ⟨hft,hfr,hfl,hfailed,happlied⟩ := of_decide_eq_true hf
  cases hat
  cases har
  cases hal
  cases hbt
  cases hbr
  cases hbl
  cases hft
  cases hfr
  cases hfl
  cases happlied
  exact ⟨img,grown,cut,failed,hinline,hgrow,ok_of_toOption hcut,hfail,hroom,hunmapped,hgrown,hcutLpas,hfailed,hfound⟩

section LongRun
variable {grown cut failed : DirImage}

def createdLong (k : Nat) : NameEvent := .create (longName k) 7 1

def longEvents : List DirEvent := [(createdLong 0).alone,(createdLong 1).alone,(createdLong 2).alone,
  (createdLong 3).alone,(createdLong 4).alone,(createdLong 5).alone,
  ⟨createdLong 6,[3072,3073,3074,3075],[3072,3073],[]⟩,⟨.remove (longName 0),[3076],[3074],[]⟩]

theorem LongRun.removed (h : LongRun img grown cut failed) : Labelled.Run DirStep newDir longEvents cut := by
  have hinline := inlineCreations_run (fun name hn => (by
    obtain ⟨k,hk,rfl⟩ := List.mem_map.mp hn
    exact longName_valid k (by have := List.mem_range.mp hk; omega))) h.inline
  have hgrow : DirStep img ⟨createdLong 6,[3072,3073,3074,3075],[3072,3073],[]⟩ grown :=
    creation_step (longName_valid 6 (by decide)) h.room
      (allocated_of_mapped (by decide +kernel) (by rw [h.unmapped]; rfl)) h.grow
  have hcut : DirStep grown ⟨.remove (longName 0),[3076],[3074],[]⟩ cut :=
    .remove (longName_valid 0 (by decide)) (allocated_of_mapped (by decide +kernel) (by rw [h.grownLpas]; rfl)) h.remove
  exact hinline.append (.cons hgrow (.cons hcut .nil))

theorem LongRun.failing (h : LongRun img grown cut failed) :
    DirStep cut ⟨.removeFailed (longName 1) true,[3077],[],[3076]⟩ failed :=
  .removeFailed (longName_valid 1 (by decide)) (allocated_of_mapped (by decide +kernel) (by rw [h.cutLpas]; rfl)) h.fail

end LongRun

theorem longEvents_kept : ∀ ev ∈ longEvents.map DirEvent.names, ¬ ev.Dropped := by
  intro ev hev
  obtain ⟨e,he,rfl⟩ := List.mem_map.mp hev
  simp only [longEvents,List.mem_cons,List.not_mem_nil,or_false] at he
  rcases he with rfl | rfl | rfl | rfl | rfl | rfl | rfl | rfl
  all_goals exact not_false

theorem newDir_create_remove : ∃ img s, Labelled.Run DirStep newDir longEvents img ∧ mappedLpas img = [3076,3075] ∧
    lookupBlock img (longName 6) = some 1 ∧ Labelled.Run NameSpec noNames (longEvents.map DirEvent.names) s ∧
      img.iDentryNum.toNat = s.num ∧ (img.iDentryNum = 0 ↔ ∀ name, s.names name = none) ∧
      ∀ name, ∃ fuel, (Volume.rtfsLookupNameInParent img fuel name).map (Except.map found) =
        some (bound s.names name) := by
  obtain ⟨img,grown,cut,failed,h⟩ := longRun
  obtain ⟨s,hspec,hnum,hzero,hlookup⟩ := dir_refines_names newDir cut longEvents newDir_new h.removed
  exact ⟨cut,s,h.removed,h.cutLpas,h.found,hspec,hnum,hzero longEvents_kept,hlookup⟩

section Ledger

theorem NewDir.unmapped (h : NewDir img) : mappedLpas img = [] :=
  h.shows.mapped

theorem dir_addresses_balanced (img img' : DirImage) (events : List DirEvent) (hnew : NewDir img)
    (hrun : Labelled.Run DirStep img events img') :
    (mappedLpas img' ++ (events.flatMap DirEvent.returned ++ events.flatMap DirEvent.lost)).Perm
      (events.flatMap DirEvent.taken) := by
  have hsteps : ∀ (img : DirImage) (ev : DirEvent) (img' : DirImage),
      (∃ (s : CountedNames) (c : DirContent) (es : List RtfsMemDirEntry), Shows img s.names s.num c es) →
        DirStep img ev img' → (∃ (s : CountedNames) (c : DirContent) (es : List RtfsMemDirEntry),
          Shows img' s.names s.num c es) ∧
            (mappedLpas img' ++ (ev.returned ++ ev.lost)).Perm (mappedLpas img ++ ev.taken) := by
    rintro img ev img' ⟨s,c,es,hs⟩ hstep
    obtain ⟨⟨s',-,hshows'⟩,hbalance⟩ := hstep.refines hs
    exact ⟨⟨s',hshows'⟩,hbalance⟩
  have hall := hrun.balanced hsteps ⟨_,_,_,hnew.shows⟩
  rw [hnew.unmapped] at hall
  exact ((List.flatMap_append_perm events DirEvent.returned DirEvent.lost).append_left _).trans hall

theorem newDir_failed_balanced : ∃ img, mappedLpas img = [3077,3075] ∧
    Labelled.Run DirStep newDir (longEvents ++ [⟨.removeFailed (longName 1) true,[3077],[],[3076]⟩]) img ∧
    ([3077,3075] ++ ([3072,3073,3074] ++ [3076]) : List UInt32).Perm [3072,3073,3074,3075,3076,3077] := by
  obtain ⟨img,grown,cut,failed,h⟩ := longRun
  have hrun := h.removed.append (.cons h.failing .nil)
  have hbalance := dir_addresses_balanced newDir failed _ newDir_new hrun
  rw [h.failedLpas] at hbalance
  exact ⟨failed,h.failedLpas,hrun,hbalance⟩

end Ledger

section Refused

theorem removeEntry_ends (d : RtfsDirInode) {name : List UInt8} (hv : ValidName name) :
    (rtfsDirInodeRemoveEntry d name).1 = .ok () ∨ (rtfsDirInodeRemoveEntry d name).1 = .error .enoent := by
  unfold rtfsDirInodeRemoveEntry rtfsDirInodeRemoveEntryInternal
  rw [if_neg (not_badLength hv)]
  cases hf : d.entries.findIdx? (fun e => decide (e.name = name)) with
  | none => exact .inr rfl
  | some i =>
    have hlt := (List.findIdx?_eq_some_iff_getElem.mp hf).1
    simp [List.getElem?_eq_getElem hlt]

theorem removeEntry_ok_iff (h : DirOk d) (hv : ValidName name) :
    (rtfsDirInodeRemoveEntry d name).1 = .ok () ↔ d.Present name := by
  have hout := removeEntry_outcome h hv
  constructor
  · intro hok
    by_contra hp
    cases hok.symm.trans (hout.absent.mpr hp)
  · intro hp
    exact (removeEntry_ends d hv).resolve_right (fun he => hout.absent.mp he hp)

theorem Shows.lookup_found {img : DirImage} {m : Names} {n : Nat} {c : DirContent} {es : List RtfsMemDirEntry}
    (h : Shows img m n c es) {fuel : Nat} {name : List UInt8} {e : RtfsMemDirEntry}
    (hr : Volume.rtfsLookupNameInParent img fuel name = some (.ok (.entry e))) :
    e ∈ es ∧ e.name = name ∧ ValidName name ∧ m name = some (e.ino,e.fileType) := by
  unfold Volume.rtfsLookupNameInParent at hr
  cases hvn : Volume.validateName name with
  | error err =>
    rw [hvn] at hr
    cases hr
  | ok u =>
    rw [hvn] at hr
    have hans := h.resolves (not_dots hvn) hr
    rcases h.answer name with ⟨x,hx,hname,hans',hm⟩ | ⟨hans',-⟩
    · cases hans.trans hans'
      exact ⟨hx,hname,hname ▸ h.holds.names e hx,hm⟩
    · cases hans.trans hans'

-- a name that a lookup finds is missing to the handlers that remove it when its entry is in a block after the first
theorem unlink_refused_iff (img img' : DirImage) (events : List DirEvent) (hnew : NewDir img)
    (hrun : Labelled.Run DirStep img events img') (fuel : Nat) (name : List UInt8) (e : RtfsMemDirEntry)
    (hfound : Volume.rtfsLookupNameInParent img' fuel name = some (.ok (.entry e))) :
    ∃ d, rtfsDirInodeResolve img' = .ok d ∧
      (rtfsDirInodeRemoveEntry d name).1 = (if e.sourceBlockIndex = 0 then .ok () else .error .enoent) ∧
      ∀ commit, e.sourceBlockIndex ≠ 0 → Volume.rtfsUnlinkFromParentAndCommit commit img' name = .error .enoent := by
  obtain ⟨s,-,c,es,hshows⟩ := dirRun_shows hnew hrun
  obtain ⟨d,hd,-,-,hbuilt⟩ := hshows.start
  obtain ⟨he,hname,hv,-⟩ := hshows.lookup_found hfound
  have hpresent := hbuilt.present_iff hshows.holds he
  rw [hname] at hpresent
  have hout := removeEntry_outcome hbuilt.ok hv
  refine ⟨d,hd,?_,fun commit hz => ?_⟩
  · split
    · rename_i hz
      exact (removeEntry_ok_iff hbuilt.ok hv).mpr (hpresent.mpr hz)
    · rename_i hz
      exact hout.absent.mpr (fun hp => hz (hpresent.mp hp))
  · unfold Volume.rtfsUnlinkFromParentAndCommit
    rw [hd]
    exact commitChanges_error (hout.absent.mpr (fun hp => hz (hpresent.mp hp)))

theorem unlink_refused_newDir : ∃ img e d, Labelled.Run DirStep newDir longEvents img ∧
    Volume.rtfsLookupNameInParent img 3 (longName 6) = some (.ok (.entry e)) ∧ e.sourceBlockIndex = 1 ∧
    rtfsDirInodeResolve img = .ok d ∧ (rtfsDirInodeRemoveEntry d (longName 6)).1 = .error .enoent ∧
    ∀ commit, Volume.rtfsUnlinkFromParentAndCommit commit img (longName 6) = .error .enoent := by
  obtain ⟨img,grown,cut,failed,h⟩ := longRun
  obtain ⟨e,hfound,hblock⟩ := lookupBlock_found h.found
  have hz : e.sourceBlockIndex ≠ 0 := by
    rw [hblock]
    decide
  obtain ⟨d,hd,hremove,hunlink⟩ := unlink_refused_iff newDir cut longEvents newDir_new h.removed 3 (longName 6) e hfound
  rw [if_neg hz] at hremove
  exact ⟨cut,e,d,h.removed,hfound,hblock,hd,hremove,fun commit => hunlink commit hz⟩

end Refused

end Run

end DirEntries

end Rtfs
