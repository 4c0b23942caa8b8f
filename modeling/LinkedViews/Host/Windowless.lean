import LinkedViews.Host.Basic

/-!
A host that shows no documents, and is otherwise the host that it is made from.
-/

namespace LinkedViews

structure Windowless (H : Type) where
  host : H

instance {H : Type} [Host H] : Host (Windowless H) where
  visible w := Host.visible w.host
  active w := Host.active w.host
  uri? w := Host.uri? w.host
  selections w := Host.selections w.host
  offsetAt w := Host.offsetAt w.host
  positionAt w := Host.positionAt w.host
  display w _ _ := (none, w)
  write w e s :=
    let (reported, host) := Host.write w.host e s
    (reported, ⟨host⟩)
  scrollTo w e s := ⟨Host.scrollTo w.host e s⟩
  newPanel w title column :=
    let (panel, host) := Host.newPanel w.host title column
    (panel, ⟨host⟩)
  fillPanel w p content := ⟨Host.fillPanel w.host p content⟩
  raisePanel w p := ⟨Host.raisePanel w.host p⟩

end LinkedViews
