import Pagefold.Starter

/-!
# Settings

* `AssetSettings`: the names of the folders that have to do with assets;
* `Settings`: what is known about layouts and assets, with what holds unless it is said otherwise.
-/

namespace Pagefold

structure AssetSettings where
  /-- The name of the asset folder, with which local references start. -/
  folderName : Text := "assets".toList
  /-- The name of the copied asset folder next to the output. -/
  copyName : Text := "assets".toList
  /-- The name of the folder around a whole project. -/
  projectName : Text := "Admin".toList
  /-- The name of the source folder of a project. -/
  sourceName : Text := "src".toList
deriving Repr, DecidableEq

structure Settings where
  starter : StarterSettings := {}
  assets : AssetSettings := {}
deriving Repr, DecidableEq

end Pagefold
