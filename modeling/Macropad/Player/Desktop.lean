import Macropad.Input.Keyboard
import Macropad.Player
import Macropad.Screen.Polling

/-!
The player of the desktop. In a dry run every image is found at once and input goes
nowhere; otherwise no image is ever found, since nothing can look at the screen.
-/

set_option autoImplicit false

namespace Macropad

open Macropad.Input Macropad.Screen

def Devices.desktop (dryRun : Bool) (fileText? : String → Option String) :
    Devices Poller Unit where
  fileText? := fileText?
  locator := Poller.locator
  injector := (Keyboard.mk dryRun).injector

def Screen.Display.desktop (dryRun : Bool) : Display :=
  if dryRun then Display.fixed else Display.unavailable

/-- A player whose locator is set up from the engine block. -/
def Player.polling (config : Config) (display : Display) : Player Poller Unit :=
  .ofConfig config (.ofEngine config.engine display) ()

def Player.desktop (config : Config) (dryRun : Bool) : Player Poller Unit :=
  .polling config (.desktop dryRun)

end Macropad
